import Dataplane.Packet
import Dataplane.Proofs.InPlace.Shapes

/-!
# Packets changed in place

Updating a field, adding or removing a header, and reparsing change a packet where it is. Each of
them can be refused at many depths: no header in the group, no such field in one header of a chain, a
6to4 tunnel with the wrong addresses, raw bytes that a header far inside does not take, a frame that
does not parse again, a saved field that the new packet does not have. By then a dirty bit could be
set, a header half changed, or the attributes and the log moved away.

None of that happens (`refused_leaves_packet`): the packet after a refused call is the packet before
it, in every component, and a call that is not refused leaves what the operation gives.
-/

namespace Dataplane

open InPlace

variable {ε α : Type}

namespace Packet

/-! ### Calls on a part of a packet -/

/-- The packet with another header in the place of an entry; the dirty bit stays. -/
def withHeader (p : Packet) (g : HeaderGroup) (e : Entry) (h : Header) : Packet :=
  { p with headers := p.headers.set g (some { e with header := h }) }

/-- Runs a call on the header of a group. -/
def onHeader (g : HeaderGroup) (absent : ε) (m : InPlace ε Header α) : InPlace ε Packet α := fun p =>
  match p.headers.get g with
  | some e => into (p.withHeader g e) (m e.header)
  | none => .error absent p

/-- The packet with the dirty bit of a group set. -/
def markDirty (g : HeaderGroup) (p : Packet) : Packet :=
  { p with headers := p.headers.modify g fun e => { e with dirty := true } }

/-- The packet with its header table changed. -/
def onTable (f : Headers → Headers) (p : Packet) : Packet := { p with headers := f p.headers }

/-- The packet with the description of its headers. -/
def describe (p : Packet) : Packet := { p with description := p.headers.describe }

/-! ### The calls -/

/-- Updates a field. -/
def updateInPlace (id : FieldId) (op : FieldOp) (arg : Bytes) : InPlace FieldError Packet Unit :=
  match id with
  | .field num inst => do
    refuseIf (¬num.accepts arg.length) (.badSize id arg.length)
    let dirty ← onHeader num.group (.noSuchField id) (Header.updateInPlace num inst op arg)
    if dirty then modify (markDirty num.group)
  | .udf g offset size inst => do
    let (g, start) ← fromExcept ((← current).locateRaw id g offset.toNat size.toNat inst)
    refuseIf (arg.length = 0 ∨ size.toNat < arg.length) (.badSize id arg.length)
    match (← current).headers.get g with
    | none => throw (.noSuchField id)
    | some e => do
      let val ← fromExcept (rawValue e.header id start size.toNat op arg)
      onHeader g (.noSuchField id) (mapError (fun _ => .badOp id op) (Header.writeInPlace start val))
      modify (markDirty g)

/-- Puts a header of a kind in a group: into the header that is there, or as a fresh one. -/
def placeInPlace (g : HeaderGroup) (kind : HeaderKind) : InPlace HeaderError Packet Unit := do
  if (← current).headers.isPresent g then
    onHeader g (.notPresent kind) (Header.pushInPlace kind)
    modify (markDirty g)
  else
    let h ← fromExcept (Header.fresh kind)
    modify (onTable (·.set g (some ⟨h, true⟩)))
    modify (onTable (·.attachAt g))

/-- Adds a header of a kind. -/
def encapInPlace (kind : HeaderKind) : InPlace HeaderError Packet Unit :=
  match kind.group? with
  | none => throw (.noSynthesis kind)
  | some .packet | some .payload => throw (.groupOrder kind)
  | some g => do
    placeInPlace g kind
    modify (onTable (·.rebuildOutward g))
    modify describe

/-- Takes the header of a kind out of its group, or the whole group out of the packet; gives the
group from which the headers have to be rebuilt. -/
def takeInPlace (g : HeaderGroup) (kind : HeaderKind) :
    InPlace HeaderError Packet (Option HeaderGroup) := do
  let done ← onHeader g (.notPresent kind) (Header.popInPlace kind)
  if done then
    modify (onTable (·.set g none))
    return (← current).headers.prev? g
  else
    modify (markDirty g)
    return some g

/-- Removes the header of a kind. -/
def decapInPlace (kind : HeaderKind) : InPlace HeaderError Packet Unit :=
  match kind.group? with
  | none => throw (.notPresent kind)
  | some .packet => throw (.precondition kind .metadataStays)
  | some g => do
    match ← takeInPlace g kind with
    | some outer => modify (onTable (·.rebuildOutward outer))
    | none => pure ()
    modify describe

/-- Sets some fields of a packet at hand to the values they have in `p`. A refused update drops the
packet at hand. -/
def copyInPlace (p : Packet) : List FieldId → Packet → Except FieldError Packet
  | [], target => .ok target
  | id :: ids, target => do
    let val ← p.get id
    match updateInPlace id .set val target with
    | .ok () target => copyInPlace p ids target
    | .error e _ => throw e

/-- Puts a packet parsed anew in the place of this one. The attributes and the log are moved over
last. -/
def reparseInPlace (start : HeaderKind) (fields : List FieldId) (front : Bytes) :
    InPlace PacketError Packet Unit := do
  let p ← current
  let fresh ← fromExcept ((parse start (front ++ p.serialize.1)).mapError .parse)
  let copy ← fromExcept ((p.copyInPlace fields fresh).mapError .field)
  modify fun p => { p with attrs := .empty }
  modify fun p => { p with log := [] }
  modify fun _ => { copy with attrs := p.attrs, debug := p.debug, log := p.log }

/-! ### Each is the operation done at once -/

/-- A header that is changed at once is a packet that is changed at once. -/
theorem onHeader_atOnce (g : HeaderGroup) (absent : ε) (f : Header → Except ε (Header × α)) :
    onHeader g absent (atOnce f) = atOnce fun p =>
      match p.headers.get g with
      | some e => (f e.header).map fun r => (p.withHeader g e r.1, r.2)
      | none => .error absent := by
  funext p
  rw [onHeader, atOnce_apply]
  cases hg : p.headers.get g with
  | none => rfl
  | some e =>
    dsimp only
    rw [atOnce_apply]
    cases f e.header with
    | ok r => rfl
    | error err =>
      -- the header is put back as it was taken
      have hsame : p.withHeader g e e.header = p := by
        rw [withHeader, show ({ e with header := e.header } : Entry) = e from rfl, ← hg]
        cases g <;> rfl
      simp only [into, Except.map, hsame]

@[simp] theorem withHeader_get (p : Packet) (g : HeaderGroup) (e : Entry) (h : Header) :
    (p.withHeader g e h).headers.get g = some { e with header := h } :=
  Headers.get_set_self _ _ _

/-- Setting the dirty bit after a change of the header. -/
theorem markDirty_withHeader (p : Packet) (g : HeaderGroup) (e : Entry) (h : Header) :
    markDirty g (p.withHeader g e h) = { p with headers := p.headers.set g (some ⟨h, true⟩) } := by
  rw [markDirty, Headers.modify, withHeader_get]
  cases g <;> rfl

/-- The packet with a header of a group changed, which is then dirty. -/
def changeHeader (g : HeaderGroup) (absent : ε) (f : Header → Except ε Header) (p : Packet) :
    Except ε Packet :=
  match p.headers.get g with
  | some e => (f e.header).map fun h => { p with headers := p.headers.set g (some ⟨h, true⟩) }
  | none => .error absent

/-- Changing a header at once and then setting the dirty bit is done at once. -/
theorem onHeader_markDirty (g : HeaderGroup) (absent : ε) (f : Header → Except ε Header)
    (p : Packet) :
    (onHeader g absent (atOnce (silent f)) >>= fun _ => modify (markDirty g)) p =
      atOnce (silent (changeHeader g absent f)) p := by
  rw [onHeader_atOnce, bind_apply, atOnce_apply, atOnce_apply, silent, changeHeader]
  cases p.headers.get g with
  | none => rfl
  | some e =>
    dsimp only
    rw [silent]
    cases f e.header with
    | error err => rfl
    | ok h =>
      show EStateM.Result.ok () (markDirty g (p.withHeader g e h)) = _
      rw [markDirty_withHeader]
      rfl

/-- Writing raw bytes at once, with the packet's error. -/
theorem write_refused (start : Nat) (val : Bytes) (e : ε) :
    mapError (fun _ => e) (Header.writeInPlace start val) =
      atOnce (silent fun h => match h.writeRaw? start val with
        | some h => .ok h
        | none => .error e) := by
  rw [Header.write_inPlace, mapError_atOnce]
  funext h
  rw [atOnce_apply, atOnce_apply, orNothing, orNone, silent]
  cases h.writeRaw? start val <;> rfl

/-- A well-known field is updated at once. -/
theorem updateInPlace_field (num : FieldNum) (inst : Instance) (op : FieldOp) (arg : Bytes) :
    updateInPlace (.field num inst) op arg = atOnce (silent (·.update (.field num inst) op arg)) := by
  funext p
  rw [updateInPlace, bind_apply, atOnce_apply, silent, update]
  by_cases hsize : num.accepts arg.length
  · rw [refuseIf_of_not (by simpa using hsize), if_neg (by simpa using hsize)]
    dsimp only
    rw [Header.update_inPlace, onHeader_atOnce, bind_apply, atOnce_apply]
    cases p.headers.get num.group with
    | none => rfl
    | some e =>
      dsimp only
      cases e.header.update num inst op arg with
      | error err => rfl
      | ok r =>
        obtain ⟨h, dirty⟩ := r
        have hmark := markDirty_withHeader p num.group e h
        cases dirty with
        | false => simp [Except.map, withHeader, pure_apply]
        | true => simp [Except.map, modify_apply, hmark]
  · rw [refuseIf_of (by simpa using hsize), if_pos (by simpa using hsize)]
    rfl

/-- A user-defined field is updated at once. -/
theorem updateInPlace_udf (g : HeaderGroup) (offset size : UInt16) (inst : Instance) (op : FieldOp)
    (arg : Bytes) :
    updateInPlace (.udf g offset size inst) op arg =
      atOnce (silent (·.update (.udf g offset size inst) op arg)) := by
  funext p
  rw [updateInPlace, bind_apply, atOnce_apply, silent, update, current_apply]
  dsimp only
  rw [bind_apply]
  cases p.locateRaw (.udf g offset size inst) g offset.toNat size.toNat inst with
  | error err => rfl
  | ok place =>
    obtain ⟨g', start⟩ := place
    rw [fromExcept_ok]
    dsimp only
    by_cases hsize : arg.length = 0 ∨ size.toNat < arg.length
    · rw [bind_apply, refuseIf_of hsize]
      simp only [bind, Except.bind, if_pos hsize]
      rfl
    · rw [bind_apply, refuseIf_of_not hsize]
      dsimp only
      rw [bind_apply, current_apply]
      simp only [bind, Except.bind, if_neg hsize]
      cases hg : p.headers.get g' with
      | none => rfl
      | some e =>
        change (fromExcept (rawValue e.header _ start size.toNat op arg) >>= _) p = _
        dsimp only
        rw [bind_apply]
        cases rawValue e.header (.udf g offset size inst) start size.toNat op arg with
        | error err => rfl
        | ok val =>
          rw [fromExcept_ok]
          dsimp only
          rw [write_refused]
          refine (onHeader_markDirty g' _ _ p).trans ?_
          rw [atOnce_apply, silent, changeHeader, hg]
          dsimp only
          cases e.header.writeRaw? start val <;> rfl

theorem updateInPlace_eq (id : FieldId) (op : FieldOp) (arg : Bytes) :
    updateInPlace id op arg = atOnce (silent (·.update id op arg)) := by
  cases id with
  | field num inst => exact updateInPlace_field num inst op arg
  | udf g offset size inst => exact updateInPlace_udf g offset size inst op arg

/-- The table with a header of a kind put in a group. -/
def placed (p : Packet) (g : HeaderGroup) (kind : HeaderKind) : Except HeaderError Headers :=
  match p.headers.get g with
  | some e => (e.header.push kind).map fun h => p.headers.set g (some ⟨h, true⟩)
  | none => (Header.fresh kind).map fun h => (p.headers.set g (some ⟨h, true⟩)).attachAt g

theorem placeInPlace_eq (g : HeaderGroup) (kind : HeaderKind) :
    placeInPlace g kind = atOnce (silent fun p =>
      (p.placed g kind).map fun t => { p with headers := t }) := by
  funext p
  rw [placeInPlace, bind_apply, current_apply, atOnce_apply, silent, placed]
  dsimp only
  cases hg : p.headers.get g with
  | some e =>
    rw [if_pos (by simp [Headers.isPresent, hg]), Header.push_inPlace]
    refine (onHeader_markDirty g _ _ p).trans ?_
    rw [atOnce_apply, silent, changeHeader, hg]
    dsimp only
    cases e.header.push kind <;> rfl
  | none =>
    rw [if_neg (by simp [Headers.isPresent, hg]), bind_apply]
    cases Header.fresh kind <;> rfl

theorem encap_eq {p : Packet} {kind : HeaderKind} {g : HeaderGroup} (hg : kind.group? = some g)
    (hpacket : g ≠ .packet) (hpayload : g ≠ .payload) :
    p.encap kind = (p.placed g kind).map fun t => p.withHeaders (t.rebuildOutward g) := by
  unfold encap placed
  rw [hg]
  cases g with
  | packet => exact absurd rfl hpacket
  | payload => exact absurd rfl hpayload
  | _ =>
    dsimp only
    cases p.headers.get _ with
    | some e =>
      dsimp only
      cases e.header.push kind <;> rfl
    | none =>
      dsimp only
      cases Header.fresh kind <;> rfl

theorem encapInPlace_eq (kind : HeaderKind) :
    encapInPlace kind = atOnce (silent (·.encap kind)) := by
  funext p
  rw [atOnce_apply, silent]
  cases hg : kind.group? with
  | none =>
    unfold encapInPlace encap
    rw [hg]
    rfl
  | some g =>
    by_cases hpacket : g = .packet
    · unfold encapInPlace encap
      rw [hg, hpacket]
      rfl
    by_cases hpayload : g = .payload
    · unfold encapInPlace encap
      rw [hg, hpayload]
      rfl
    have hbody : encapInPlace kind = (do
        placeInPlace g kind
        modify (onTable (·.rebuildOutward g))
        modify describe) := by
      unfold encapInPlace
      rw [hg]
      cases g <;> first | rfl | contradiction
    rw [hbody, placeInPlace_eq, encap_eq hg hpacket hpayload, bind_apply, atOnce_apply, silent]
    cases p.placed g kind <;> rfl

/-- The table without the header of a kind, and the group from which it has to be rebuilt. -/
def taken (p : Packet) (g : HeaderGroup) (kind : HeaderKind) :
    Except HeaderError (Headers × Option HeaderGroup) :=
  match p.headers.get g with
  | none => .error (.notPresent kind)
  | some e => (e.header.pop kind).map fun (h, done) =>
    if done then (p.headers.set g none, (p.headers.set g none).prev? g)
    else (p.headers.set g (some ⟨h, true⟩), some g)

theorem takeInPlace_eq (g : HeaderGroup) (kind : HeaderKind) :
    takeInPlace g kind = atOnce fun p =>
      (p.taken g kind).map fun r => ({ p with headers := r.1 }, r.2) := by
  funext p
  rw [takeInPlace, Header.pop_inPlace, onHeader_atOnce, bind_apply, atOnce_apply, atOnce_apply,
    taken]
  cases p.headers.get g with
  | none => rfl
  | some e =>
    dsimp only
    cases e.header.pop kind with
    | error err => rfl
    | ok r =>
      obtain ⟨h, done⟩ := r
      cases done with
      | true =>
        have hset : (p.withHeader g e h).headers.set g none = p.headers.set g none := by
          cases g <;> rfl
        simp [Except.map, bind_apply, modify_apply, onTable, hset]
        rfl
      | false =>
        have hmark := markDirty_withHeader p g e h
        simp [Except.map, bind_apply, modify_apply, pure_apply, hmark]

theorem decap_eq {p : Packet} {kind : HeaderKind} {g : HeaderGroup} (hg : kind.group? = some g)
    (hpacket : g ≠ .packet) :
    p.decap kind = (p.taken g kind).map fun (t, from?) => p.withHeaders
      (match from? with
        | some outer => t.rebuildOutward outer
        | none => t) := by
  unfold decap taken
  rw [hg]
  cases g with
  | packet => exact absurd rfl hpacket
  | _ =>
    dsimp only
    cases p.headers.get _ with
    | none => rfl
    | some e =>
      dsimp only
      cases e.header.pop kind with
      | error err => rfl
      | ok r =>
        obtain ⟨h, done⟩ := r
        cases done with
        | false => rfl
        | true =>
          simp only [bind, Except.bind, Except.map, if_true]
          split <;> simp only [*, pure, Except.pure]

theorem decapInPlace_eq (kind : HeaderKind) :
    decapInPlace kind = atOnce (silent (·.decap kind)) := by
  funext p
  rw [atOnce_apply, silent]
  cases hg : kind.group? with
  | none =>
    unfold decapInPlace decap
    rw [hg]
    rfl
  | some g =>
    by_cases hpacket : g = .packet
    · unfold decapInPlace decap
      rw [hg, hpacket]
      rfl
    have hbody : decapInPlace kind = (do
        match ← takeInPlace g kind with
        | some outer => modify (onTable (·.rebuildOutward outer))
        | none => pure ()
        modify describe) := by
      unfold decapInPlace
      rw [hg]
      cases g <;> first | rfl | contradiction
    rw [hbody, takeInPlace_eq, decap_eq hg hpacket, bind_apply, atOnce_apply]
    cases p.taken g kind with
    | error err => rfl
    | ok r =>
      obtain ⟨t, from?⟩ := r
      cases from? <;> rfl

/-- Copying stops at the first field that is missing or refused, as it does on copies. -/
theorem copyInPlace_eq (p : Packet) (ids : List FieldId) (target : Packet) :
    p.copyInPlace ids target = p.copyFields ids target := by
  induction ids generalizing target with
  | nil => rfl
  | cons id ids ih =>
    rw [copyInPlace, copyFields]
    cases p.get id with
    | error err => rfl
    | ok val =>
      simp only [bind, Except.bind]
      rw [updateInPlace_eq, atOnce_apply, silent]
      cases target.update id .set val with
      | error err => rfl
      | ok target' => exact ih target'

theorem reparseInPlace_eq (start : HeaderKind) (fields : List FieldId) (front : Bytes) :
    reparseInPlace start fields front = atOnce (silent (·.reparse start fields front)) := by
  funext p
  rw [reparseInPlace, bind_apply, atOnce_apply, silent, reparse, current_apply]
  dsimp only
  rw [bind_apply]
  cases (parse start (front ++ p.serialize.1)).mapError PacketError.parse with
  | error err => rfl
  | ok fresh =>
    rw [fromExcept_ok]
    simp only [bind, Except.bind]
    rw [copyInPlace_eq]
    cases (p.copyFields fields fresh).mapError PacketError.field <;> rfl

/-! ### Refused calls -/

/-- A call that changes a packet and may be refused. -/
inductive Call where
  /-- An operation on a field. -/
  | update (id : FieldId) (op : FieldOp) (arg : Bytes)
  /-- Adding a header. -/
  | encap (kind : HeaderKind)
  /-- Removing a header. -/
  | decap (kind : HeaderKind)
  /-- Parsing the frame anew, with other bytes in front. -/
  | reparse (start : HeaderKind) (fields : List FieldId) (front : Bytes)

namespace Call

/-- The call, step by step. -/
def run : Call → InPlace PacketError Packet Unit
  | update id op arg => mapError .field (updateInPlace id op arg)
  | encap kind => mapError .header (encapInPlace kind)
  | decap kind => mapError .header (decapInPlace kind)
  | reparse start fields front => reparseInPlace start fields front

/-- What the call is to make of a packet. -/
def result : Call → Packet → Except PacketError Packet
  | update id op arg, p => (p.update id op arg).mapError .field
  | encap kind, p => (p.encap kind).mapError .header
  | decap kind, p => (p.decap kind).mapError .header
  | reparse start fields front, p => p.reparse start fields front

/-- A call is done at once. -/
theorem run_eq (call : Call) : call.run = atOnce (silent call.result) := by
  have hsilent {ε : Type} (f : ε → PacketError) (g : Packet → Except ε Packet) :
      mapError f (atOnce (silent g)) = atOnce (silent fun p => (g p).mapError f) := by
    rw [mapError_atOnce]
    funext p
    rw [atOnce_apply, atOnce_apply, silent, silent]
    cases g p <;> rfl
  cases call with
  | update id op arg => rw [run, updateInPlace_eq, hsilent]; rfl
  | encap kind => rw [run, encapInPlace_eq, hsilent]; rfl
  | decap kind => rw [run, decapInPlace_eq, hsilent]; rfl
  | reparse start fields front => exact reparseInPlace_eq start fields front

end Call

/-- **Refused calls leave the packet as it was.** Run step by step in place, a call that ends with
an error ends with the packet it began with: headers, dirty bits, remembered pseudo-headers,
trailers, metadata, start, attributes, debug flag, log and description. The error is the
operation's, and a call that ends without one ends with what the operation gives. -/
theorem refused_leaves_packet (p : Packet) (call : Call) :
    (∀ e q, call.run p = .error e q → q = p ∧ call.result p = .error e) ∧
    (∀ q, call.run p = .ok () q → call.result p = .ok q) := by
  rw [Call.run_eq, atOnce_apply, silent]
  cases call.result p with
  | error err =>
    constructor
    · intro e q h
      cases h
      exact ⟨rfl, rfl⟩
    · intro q h
      cases h
  | ok r =>
    constructor
    · intro e q h
      cases h
    · intro q h
      cases h
      rfl

end Packet

end Dataplane
