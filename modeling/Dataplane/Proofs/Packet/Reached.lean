import Dataplane.Proofs.Header.GreFlags
import Dataplane.Proofs.Headers.Rebuilding
import Dataplane.Proofs.Packet.Edits

/-!
# The packets that operations reach

A packet begins as a parsed frame. From there field updates, adding and removing headers,
serializing, replicas and reparsing, and the ports, attributes and log messages that are set lead
from packet to packet (`Packet.Reached`).

What holds of every header that can be read or made, and stays true of it under every change, holds
of the headers of every packet reached (`Packet.Reached.every`). So every header lies in its group,
and every GRE header says by its flags which words it has.
-/

namespace Dataplane

namespace Headers

variable {t : Headers} {P : HeaderGroup → Header → Prop} {g : HeaderGroup} {h : Header}

/-- Every header of the table has a property. -/
def Every (P : HeaderGroup → Header → Prop) (t : Headers) : Prop :=
  ∀ g e, t.get g = some e → P g e.header

theorem every_empty : empty.Every P := by
  intro g e h
  cases g <;> cases h

theorem Every.set (ht : t.Every P) {e : Entry} (he : P g e.header) :
    (t.set g (some e)).Every P := by
  intro g' e' h
  by_cases hg : g' = g
  · subst hg
    rw [get_set_self, Option.some.injEq] at h
    rwa [← h]
  · rw [get_set_of_ne _ hg] at h
    exact ht g' e' h

theorem Every.remove (ht : t.Every P) (g : HeaderGroup) : (t.set g none).Every P := by
  intro g' e' h
  by_cases hg : g' = g
  · subst hg
    rw [get_set_self] at h
    cases h
  · rw [get_set_of_ne _ hg] at h
    exact ht g' e' h

theorem Every.modify (ht : t.Every P) (g : HeaderGroup) {f : Entry → Entry}
    (hf : ∀ e, P g e.header → P g (f e).header) : (t.modify g f).Every P := by
  unfold Headers.modify
  cases he : t.get g with
  | none => exact ht.remove g
  | some e => exact ht.set (hf e (ht g e he))

theorem Every.attachAt (ht : t.Every P) (g : HeaderGroup)
    (hP : ∀ g h around, P g h → P g (h.attach around)) : (t.attachAt g).Every P :=
  ht.modify g fun _ he => hP _ _ _ he

theorem Every.attachAll (ht : t.Every P) (hP : ∀ g h around, P g h → P g (h.attach around)) :
    t.attachAll.Every P :=
  List.foldlRecOn HeaderGroup.all Headers.attachAt ht fun _ h g _ => h.attachAt g hP

theorem Every.rebuildGroups (ht : t.Every P) (gs : List HeaderGroup)
    (hP : ∀ g h around dirty, P g h → P g (h.rebuild around dirty)) :
    (t.rebuildGroups gs).Every P :=
  List.foldlRecOn gs Headers.cleanAt
    (List.foldlRecOn gs Headers.rebuildAt ht fun _ h g _ => h.modify g fun _ he => hP _ _ _ _ he)
    fun _ h g _ => h.modify g fun _ he => he

end Headers

/-- A property of headers in their groups that holds of every header read or made, and that every
change to a header keeps. Of what is left when nothing is left, it need not hold. -/
structure Header.Lasting (P : HeaderGroup → Header → Prop) : Prop where
  read : ∀ {kind next f f' h g}, kind.group? = some g → Header.read kind f = .ok (h, next, f') →
    P g h
  fresh : ∀ {kind h g}, kind.group? = some g → Header.fresh kind = .ok h → P g h
  attach : ∀ g h around, P g h → P g (h.attach around)
  rebuild : ∀ g h around dirty, P g h → P g (h.rebuild around dirty)
  update : ∀ {g h num inst op arg h' dirty}, P g h → h.update num inst op arg = .ok (h', dirty) →
    P g h'
  write : ∀ {g h start val h'}, P g h → h.writeRaw? start val = some h' → P g h'
  push : ∀ {g h kind h'}, P g h → h.push kind = .ok h' → P g h'
  pop : ∀ {g h kind h'}, P g h → h.pop kind = .ok (h', false) → P g h'

namespace Headers

variable {t t' : Headers} {P : HeaderGroup → Header → Prop}

/-- A lasting property stays under every edit. -/
theorem Every.step (ht : t.Every P) (hP : Header.Lasting P) {x : Edit} (hx : Step t x t') :
    t'.Every P := by
  cases hx with
  | refused => exact ht
  | field he hu => exact ht.set (hP.update (ht _ _ he) hu)
  | raw he hw => exact ht.set (hP.write (ht _ _ he) hw)
  | pushed hg hp he hu => exact (ht.set (hP.push (ht _ _ he) hu)).rebuildGroups _ hP.rebuild
  | placed hg hp he hf =>
    exact ((ht.set (hP.fresh hg hf)).attachAt _ hP.attach).rebuildGroups _ hP.rebuild
  | popped hg he hu => exact (ht.set (hP.pop (ht _ _ he) hu)).rebuildGroups _ hP.rebuild
  | removed hg he hu ho => exact (ht.remove _).rebuildGroups _ hP.rebuild
  | bared hg he hu => exact ht.remove _
  | serialized => exact ht.rebuildGroups _ hP.rebuild

end Headers

namespace Packet

/-- The packets that operations reach from parsed frames. -/
inductive Reached : Packet → Prop
  /-- A parsed frame. -/
  | parse {start : HeaderKind} {b : Bytes} {p : Packet} (h : parse start b = .ok p) : Reached p
  /-- A field is updated. -/
  | update {p q : Packet} {id : FieldId} {op : FieldOp} {arg : Bytes} (hp : Reached p)
      (h : p.update id op arg = .ok q) : Reached q
  /-- A header is added. -/
  | encap {p q : Packet} {kind : HeaderKind} (hp : Reached p) (h : p.encap kind = .ok q) : Reached q
  /-- A header is removed. -/
  | decap {p q : Packet} {kind : HeaderKind} (hp : Reached p) (h : p.decap kind = .ok q) : Reached q
  /-- The frame is given. -/
  | serialize {p : Packet} (hp : Reached p) : Reached p.serialize.2
  /-- The packet is reparsed, or a replica is made of it. -/
  | reparse {p q : Packet} {start : HeaderKind} {fields : List FieldId} {front : Bytes}
      (hp : Reached p) (h : p.reparse start fields front = .ok q) : Reached q
  /-- The port the packet came in by is set. -/
  | setInputPort {p : Packet} (hp : Reached p) (nid : Nat) : Reached (p.setInputPort nid)
  /-- The port the packet leaves by is set. -/
  | setOutputPort {p : Packet} (hp : Reached p) (nid : Nat) : Reached (p.setOutputPort nid)
  /-- Attributes, the debug flag, the log or the description change. -/
  | carry {p q : Packet} (hp : Reached p) (hstart : q.start = p.start)
      (hheaders : q.headers = p.headers) : Reached q

open Headers

variable {p q : Packet} {P : HeaderGroup → Header → Prop} {Q : Headers → Prop}

/-- What every update keeps stays when fields are copied. -/
theorem copyFields_induction
    (step : ∀ {id op arg t t'}, Step t (.update id op arg) t' → Q t → Q t')
    {fields : List FieldId} {target : Packet} (ht : Q target.headers)
    (e : p.copyFields fields target = .ok q) : Q q.headers := by
  induction fields generalizing target with
  | nil =>
    cases e
    exact ht
  | cons id fields ih =>
    obtain ⟨val, -, e⟩ := bind_eq_ok_iff.mp e
    obtain ⟨target', hu, e⟩ := bind_eq_ok_iff.mp e
    exact ih (step (step_update hu) ht) e

/-- What holds of every parsed table, and what every edit and setting the ports keep, holds of the
table of every packet reached. The metadata is never removed. -/
theorem Reached.headers_induction (hp : p.Reached)
    (parse : ∀ {start b q}, Packet.parse start b = .ok q → Q q.headers)
    (step : ∀ {x t t'}, x ≠ .decap .metadata → Step t x t' → Q t → Q t')
    (ports : ∀ (q : Packet) f, Q q.headers → Q (q.modifyMetadata f).headers) : Q p.headers := by
  induction hp with
  | parse h => exact parse h
  | update _ h ih => exact step Edit.noConfusion (step_update h) ih
  | encap _ h ih => exact step Edit.noConfusion (step_encap h) ih
  | decap _ h ih =>
    refine step ?_ (step_decap h) ih
    rintro ⟨⟩
    cases h
  | serialize _ ih => exact step Edit.noConfusion .serialized ih
  | reparse _ h _ =>
    obtain ⟨fresh, hparse, h⟩ := bind_eq_ok_iff.mp h
    obtain ⟨copy, hcopy, h⟩ := bind_eq_ok_iff.mp h
    cases h
    have hcopied : Q copy.headers := copyFields_induction (fun hx => step Edit.noConfusion hx)
      (parse (mapError_eq_ok_iff.mp hparse)) (mapError_eq_ok_iff.mp hcopy)
    exact hcopied
  | setInputPort _ nid ih => exact ports _ _ ih
  | setOutputPort _ nid ih => exact ports _ _ ih
  | carry _ _ hh ih => exact hh ▸ ih

theorem every_parseHeaders (hP : Header.Lasting P) {room : Nat} {last : HeaderGroup}
    {kind : HeaderKind} {f : Frame} {t t' : Headers} (ht : t.Every P)
    (e : parseHeaders room last kind f t = .ok t') : t'.Every P := by
  induction room generalizing last kind f t with
  | zero =>
    obtain ⟨-, rfl⟩ | ⟨_, _, _, _, _, h, -⟩ := parseHeaders_cases e
    · exact ht
    · cases h
  | succ room ih =>
    obtain ⟨-, rfl⟩ | ⟨_, g, h, next, f', hroom, hg, -, hread, hrest⟩ := parseHeaders_cases e
    · exact ht
    · cases hroom
      exact ih (ht.set (hP.read hg hread)) hrest

theorem every_parse (hP : Header.Lasting P) {start : HeaderKind} {b : Bytes}
    (e : parse start b = .ok p) : p.headers.Every P := by
  obtain ⟨t, ht, rfl⟩ := parse_eq_ok_iff.mp e
  have hmeta : P .packet (.metadata .fresh) :=
    hP.read rfl (show Header.read .metadata (.ofBytes b) = .ok (_, .metadata, _) from rfl)
  exact (every_parseHeaders hP (every_empty.set hmeta) ht).attachAll hP.attach

/-- Setting a port changes the metadata and nothing else. -/
theorem every_modifyMetadata (hp : p.headers.Every P)
    (hports : ∀ m m', P .packet (.metadata m) → P .packet (.metadata m'))
    (f : Metadata → Metadata) : (p.modifyMetadata f).headers.Every P := by
  unfold modifyMetadata
  split
  · rename_i m dirty hpacket
    exact hp.set (g := .packet) (e := ⟨.metadata (f m), dirty⟩) 
      (hports m (f m) (hp .packet ⟨.metadata m, dirty⟩ hpacket))
  · exact hp

/-- A lasting property holds of the headers of every packet reached, if setting the ports keeps
it. -/
theorem Reached.every (hp : p.Reached) (hP : Header.Lasting P)
    (hports : ∀ m m', P .packet (.metadata m) → P .packet (.metadata m')) : p.headers.Every P :=
  hp.headers_induction (every_parse hP) (fun _ hx ht => ht.step hP hx)
    fun _ f ht => every_modifyMetadata ht hports f

end Packet

/-! ### Groups and flags -/

theorem Header.lasting_group : Header.Lasting fun g h => h.group = g where
  read hg e := group_read hg e
  fresh hg e := Option.some.inj ((group_fresh e).symm.trans hg)
  attach _ h _ e := (h.group_attach _).trans e
  rebuild _ h _ _ e := (h.group_rebuild _ _).trans e
  update e hu := (group_update hu).trans e
  write e hw := (group_writeRaw hw).trans e
  push e hu := (group_push hu).trans e
  pop e hu := (group_pop hu).trans e

theorem Header.lasting_flagged : Header.Lasting fun _ h => h.Flagged where
  read _ e := flagged_of_read e
  fresh _ e := flagged_fresh e
  attach _ _ _ hf := hf.attach _
  rebuild _ _ _ _ hf := hf.rebuild _ _
  update hf hu := hf.update hu
  write _ hw := by
    obtain ⟨b, -, hb⟩ := Option.bind_eq_some_iff.mp hw
    exact flagged_of_reload hb
  push hf hu := hf.push hu
  pop hf hu := hf.pop hu

namespace Packet

variable {p : Packet}

/-- Every header of a packet reached lies in its group. -/
theorem Reached.placed (hp : p.Reached) : p.headers.Placed :=
  hp.every Header.lasting_group fun _ _ h => h

/-- Every GRE header of a packet reached says truly which words it has. -/
theorem Reached.flagged (hp : p.Reached) {g : HeaderGroup} {e : Entry}
    (he : p.headers.get g = some e) : e.header.Flagged :=
  hp.every Header.lasting_flagged
    (fun _ _ _ => Header.flagged_of_group (by simp [Header.group])) g e he

end Packet

end Dataplane
