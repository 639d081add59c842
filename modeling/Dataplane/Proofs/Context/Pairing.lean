import Dataplane.Context.Run
import Dataplane.Proofs.Bytes.Fields
import Dataplane.Proofs.Context.Removal

/-!
# The port on the other side

A port and its tap are paired: swapping the output port sends a packet that came in by the one out
by the other. The name of the other port is made by taking the suffix of taps away where there is
one, and by adding it elsewhere. So two ports whose names differ by the suffix are each other's
partners, unless the longer name has the suffix twice: then the port with the shorter name has
another partner, whose name is shorter still.

## The model

`Context.HasPort c p` says that `p` is a registered port of the context `c` and `Run.SwapsTo r nid`
that swapping the output port makes the one with the NID `nid` the output port of the run `r`. What
ports are paired is a matter of names alone (`Port.tapPair`). Packets tell ports by their NIDs, in
eight bytes each; so it matters that NIDs tell registered objects apart and stay below a bound.
-/

namespace Dataplane

namespace Port

variable {id id' : String}

/-! ### Names -/

theorem untapped?_of_suffix {base : List Char} :
    untapped? (base ++ tapSuffix) = some base := by
  have hsuffix : tapSuffix.isSuffixOf (base ++ tapSuffix) = true :=
    List.isSuffixOf_iff_suffix.2 (List.suffix_append base tapSuffix)
  rw [untapped?, if_pos hsuffix, List.length_append, Nat.add_sub_cancel, List.take_left]

theorem untapped?_of_not_suffix {name : List Char} (h : ¬ tapSuffix <:+ name) :
    untapped? name = none := by
  rw [untapped?, if_neg (by rwa [List.isSuffixOf_iff_suffix])]

/-- A name that has the suffix of taps is paired with what stands before the suffix, if there is
something, and every other name but the empty one with the name that has the suffix besides. -/
theorem tapPair_eq_some_iff : tapPair id = some id' ↔
    id.toList = id'.toList ++ tapSuffix ∧ id'.toList ≠ [] ∨
      ¬ tapSuffix <:+ id.toList ∧ id.toList ≠ [] ∧ id'.toList = id.toList ++ tapSuffix := by
  have hname (name : List Char) : some (String.ofList name) = some id' ↔ name = id'.toList := by
    rw [Option.some.injEq, ← String.toList_inj, String.toList_ofList]
  rw [tapPair]
  by_cases hsuffix : tapSuffix <:+ id.toList
  · obtain ⟨base, hbase⟩ := hsuffix
    rw [← hbase, untapped?_of_suffix]
    simp only [List.append_cancel_right_eq, List.suffix_append, not_true_eq_false, false_and,
      or_false]
    cases base with
    | nil => exact iff_of_false nofun fun h => h.2 h.1.symm
    | cons ch cs =>
      rw [hname]
      exact ⟨fun h => ⟨h, h ▸ List.cons_ne_nil ch cs⟩, fun h => h.1⟩
  · rw [untapped?_of_not_suffix hsuffix]
    have hnot : ¬ (id.toList = id'.toList ++ tapSuffix ∧ id'.toList ≠ []) := fun h =>
      hsuffix ⟨id'.toList, h.1.symm⟩
    simp only [hnot, hsuffix, not_false_eq_true, true_and, false_or]
    cases id.toList with
    | nil => simp
    | cons ch cs =>
      rw [hname]
      exact ⟨fun h => ⟨List.cons_ne_nil ch cs, h.symm⟩, fun h => h.2.symm⟩

/-- The partner of a name has it for its partner, unless the name has the suffix of taps twice. -/
theorem tapPair_back_iff (h : tapPair id = some id') :
    tapPair id' = some id ↔ ¬ (tapSuffix ++ tapSuffix) <:+ id.toList := by
  rcases tapPair_eq_some_iff.1 h with ⟨htap, hne⟩ | ⟨hbare, hne, htap⟩
  · -- the suffix was taken away: it is added again, unless the rest has it as well
    have hlonger : ¬ (id'.toList = id.toList ++ tapSuffix ∧ id.toList ≠ []) := by
      rintro ⟨heq, -⟩
      have := congrArg List.length heq
      simp [htap, tapSuffix] at this
    rw [tapPair_eq_some_iff, or_iff_right hlonger, htap, List.suffix_append_self_iff]
    exact and_iff_left ⟨hne, rfl⟩
  · -- the suffix was added: it is taken away again
    have hnot : ¬ (tapSuffix ++ tapSuffix) <:+ id.toList := fun hdouble =>
      hbare ((List.suffix_append _ _).trans hdouble)
    exact iff_of_true (tapPair_eq_some_iff.2 (.inl ⟨htap, hne⟩)) hnot

end Port

/-- No number from the bound on is handed out. -/
theorem NidPool.next_le_of_take {p p' : NidPool} {nid : Nat} (h : p.next ≤ bound)
    (htake : p.take? = some (nid, p')) : p'.next ≤ bound := by
  rw [take?] at htake
  split at htake
  · cases htake
    exact h
  · split_ifs at htake with hlt
    cases htake
    exact hlt

namespace Registry

variable {β : Type} [Composite β] {r r' : Registry β} {id : String} {ref : Ref}
  {retiring log : List Nat}

/-! ### Numbers -/

/-- An object that is found by its identifier is found by its NID. -/
theorem Indexed.findNid_of_findId (h : r.Indexed retiring) (hfind : r.findId id = .ok ref) :
    r.findNid ref.nid = .ok ref := by
  obtain ⟨i, o, hi, ho, rfl⟩ := findId_eq_ok_iff.1 hfind
  obtain ⟨nid, -, hnid⟩ := serialOf?_eq_some_iff.1 hi
  obtain ⟨o', ho', rfl⟩ := h.owner hnid
  obtain rfl : o = o' := Option.some.inj (ho.symm.trans ho')
  exact (findNid_eq_ok_ref_iff ho).2 hnid

/-- An object is found by the identifier it has. -/
theorem Indexed.id_of_findId (h : r.Indexed retiring) (hfind : r.findId id = .ok ref) :
    ref.id = id := by
  obtain ⟨i, o, hi, ho, rfl⟩ := findId_eq_ok_iff.1 hfind
  obtain ⟨o', ho', hid, -⟩ := h.get?_of_serialOf? hi
  obtain rfl : o = o' := Option.some.inj (ho.symm.trans ho')
  exact hid

/-- A reference is taken to an object of a kind exactly if it is found. -/
theorem Consistent.acquireKind_eq_ok_iff {held : Multiset Nat} {forced : List Nat} {ts : List Task}
    (h : r.Consistent held forced ts) {kind : ObjectKind} : r.acquireKind id kind = .ok (ref, r') ↔
      r.findId id = .ok ref ∧ ref.kind = kind ∧ r' = r.take ref.serial := by
  rw [h.acquireKind_eq]
  constructor
  · intro hacq
    obtain ⟨ref', hfind, hacq⟩ := bind_eq_ok_iff.1 hacq
    split_ifs at hacq with hkind
    cases hacq
    exact ⟨hfind, hkind, rfl⟩
  · rintro ⟨hfind, hkind, rfl⟩
    exact bind_eq_ok_iff.2 ⟨ref, hfind, if_pos hkind⟩

/-- The NID of an object that is found is a number that was handed out. -/
theorem Indexed.used_of_findNid {nid : Nat} (h : r.Indexed retiring)
    (hfind : r.findNid nid = .ok ref) : r.pool.Used nid := by
  obtain ⟨i, hi, -⟩ := findNid_eq_ok_iff.1 hfind
  exact (h.used nid).1 (by simp [hi])

theorem next_step (r : Registry β) (t : Task) : (r.step t).1.pool.next = r.pool.next := by
  have hsettle := next_settle r [t]
  rwa [Registry.settle, next_settle] at hsettle

omit [Composite β] in
theorem next_le_of_insert {body : β} {nid : Nat} (h : r.pool.next ≤ NidPool.bound)
    (hins : r.insert id body = .ok (nid, r')) : r'.pool.next ≤ NidPool.bound := by
  rw [insert] at hins
  split_ifs at hins
  split at hins
  · cases hins
  · rename_i nid' pool htake
    cases hins
    exact NidPool.next_le_of_take h htake

theorem Course.next_le (h : Course r log r') (hr : r.pool.next ≤ NidPool.bound) :
    r'.pool.next ≤ NidPool.bound := by
  induction h with
  | start => exact hr
  | insert _ hins ih => exact next_le_of_insert ih hins
  | take _ i ih => exact ih
  | change _ i f ih => exact ih
  | unname _ id ih => exact ih
  | step _ t ih => rwa [next_step]

end Registry

namespace Context

open Registry

variable {c : Context} {held : Multiset Nat} {p q : Ref}

/-- The registry of a context that is reached hands out no number from the bound on. -/
theorem Reached.next_le (h : Reached c held) : c.registry.pool.next ≤ NidPool.bound := by
  induction h with
  | calls c calls =>
    obtain ⟨log, hcourse⟩ := Caller.along_run c calls
    exact hcourse.next_le (by decide)
  | insert _ hins ih => exact next_le_of_insert ih hins
  | acquire hc hacq ih =>
    obtain ⟨forced, hconsistent⟩ := hc.consistent
    obtain ⟨rfl, -⟩ := hconsistent.take_of_acquire hacq
    exact ih
  | release _ ih => exact (next_settle _ _).trans_le ih
  | remove hc hrem ih =>
    obtain ⟨forced, hconsistent⟩ := hc.consistent
    rw [hconsistent.toIndexed.remove_eq] at hrem
    obtain ⟨ref, -, heq⟩ := map_eq_ok_iff.1 hrem
    cases heq
    exact (next_settle _ _).trans_le ih
  | change _ _ _ ih => exact ih
  | hold _ i ih => exact ih
  | letGo _ i ih => exact (next_settle _ _).trans_le ih
  | other _ hsame ih => rwa [hsame]

/-- Is a port registered? -/
structure HasPort (c : Context) (p : Ref) : Prop where
  findId : c.registry.findId p.id = .ok p
  kind : p.kind = .port

theorem HasPort.findNid (hp : c.HasPort p) (h : Reached c held) :
    c.registry.findNid p.nid = .ok p := by
  obtain ⟨forced, hconsistent⟩ := h.consistent
  exact hconsistent.toIndexed.findNid_of_findId hp.findId

/-- The NID of a port is not zero and fits into eight bytes. -/
theorem HasPort.nid_bounds (hp : c.HasPort p) (h : Reached c held) :
    p.nid ≠ 0 ∧ p.nid < 256 ^ 8 := by
  obtain ⟨forced, hconsistent⟩ := h.consistent
  obtain ⟨hne, hlt, -⟩ := hconsistent.toIndexed.used_of_findNid (hp.findNid h)
  have hbound : NidPool.bound < 256 ^ 8 := by decide
  have hnext := h.next_le
  exact ⟨hne, by omega⟩

/-- NIDs tell ports apart. -/
theorem HasPort.ext (hp : c.HasPort p) (hq : c.HasPort q) (h : Reached c held)
    (hnid : p.nid = q.nid) : p = q := by
  have hfind := hp.findNid h
  rw [hnid, hq.findNid h] at hfind
  exact (Except.ok.inj hfind).symm

end Context

theorem Packet.outputPort_setOutputPort {p : Packet} {nid : Nat} (hin : p.inputPort ≠ 0)
    (hnid : nid < 256 ^ 8) : (p.setOutputPort nid).outputPort = nid := by
  unfold inputPort metadata? at hin
  unfold outputPort metadata? setOutputPort modifyMetadata
  -- a packet that shows where it came in by has metadata
  split at hin
  · rename_i m dirty hmeta
    simp only [Option.map_some, Option.getD_some]
    rw [Metadata.outputPort, Metadata.setOutputPort, Block.num_setNum]
    exact Nat.mod_eq_of_lt hnid
  · exact absurd rfl hin

namespace Run

open Registry Context

variable {r r' : Run} {held : Multiset Nat} {p q port : Ref}

/-! ### Swapping -/

/-- Does a run go on with the given port as the output port when that is swapped? -/
def SwapsTo (r : Run) (nid : Nat) : Prop :=
  (r.perform .swapOutput).1.state = .proceed ∧
    (r.perform .swapOutput).2.packet.outputPort = nid

instance (r : Run) (nid : Nat) : Decidable (r.SwapsTo nid) :=
  inferInstanceAs (Decidable (_ ∧ _))

/-- When there is a port on the other side, and which one it is. -/
theorem paired_eq_ok_iff : r.paired = .ok port ↔ r.context.isOpen ∧
    ∃ input id rest, r.context.registry.findNid r.packet.inputPort = .ok input ∧
      r.context.pairing.pair? input.id = some id ∧
      r.context.registry.acquireKind id .port = .ok (port, rest) := by
  rw [paired]
  cases r.context.isOpen with
  | false => exact iff_of_false nofun nofun
  | true =>
    constructor
    · intro h
      obtain ⟨input, hinput, h⟩ := bind_eq_ok_iff.1 h
      simp only at h
      split at h
      · cases h
      · rename_i id hpair
        obtain ⟨⟨port', rest⟩, hport, h⟩ := bind_eq_ok_iff.1 h
        cases h
        exact ⟨rfl, input, id, rest, mapError_eq_ok_iff.1 hinput, hpair,
          mapError_eq_ok_iff.1 hport⟩
    · rintro ⟨-, input, id, rest, hinput, hpair, hport⟩
      refine bind_eq_ok_iff.2 ⟨input, mapError_eq_ok_iff.2 hinput, ?_⟩
      simp only [hpair]
      exact bind_eq_ok_iff.2 ⟨(port, rest), mapError_eq_ok_iff.2 hport, rfl⟩

/-- A port is on the other side if it is registered under the name that is paired with that of the
input port. -/
theorem paired_eq_ok_iff_of_hasPort (h : Reached r.context held) (hp : r.context.HasPort p)
    (hin : r.packet.inputPort = p.nid) : r.paired = .ok port ↔
      r.context.isOpen ∧ r.context.pairing.pair? p.id = some port.id ∧
        r.context.HasPort port := by
  obtain ⟨forced, hconsistent⟩ := h.consistent
  rw [paired_eq_ok_iff, hin, hp.findNid h]
  refine and_congr_right fun _ => ?_
  constructor
  · rintro ⟨_, id, rest, ⟨⟩, hpair, hacq⟩
    obtain ⟨hfind, hkind, -⟩ := hconsistent.acquireKind_eq_ok_iff.1 hacq
    obtain rfl := hconsistent.toIndexed.id_of_findId hfind
    exact ⟨hpair, hfind, hkind⟩
  · rintro ⟨hpair, hport⟩
    exact ⟨p, port.id, _, rfl, hpair,
      hconsistent.acquireKind_eq_ok_iff.2 ⟨hport.findId, hport.kind, rfl⟩⟩

/-- Swapping leads from a port to another one exactly if the names are paired. -/
theorem swapsTo_iff (h : Reached r.context held) (hp : r.context.HasPort p)
    (hq : r.context.HasPort q) (hin : r.packet.inputPort = p.nid) :
    r.SwapsTo q.nid ↔ r.context.isOpen ∧ r.context.pairing.pair? p.id = some q.id := by
  have hpacket : r.packet.inputPort ≠ 0 := hin ▸ (hp.nid_bounds h).1
  change r.swapOutput.1.state = .proceed ∧ r.swapOutput.2.packet.outputPort = q.nid ↔ _
  rw [swapOutput]
  cases hpaired : r.paired with
  | error e =>
    have hother : ¬ (r.context.isOpen ∧ r.context.pairing.pair? p.id = some q.id) := by
      rintro ⟨hopen, hpair⟩
      rw [(paired_eq_ok_iff_of_hasPort h hp hin).2 ⟨hopen, hpair, hq⟩] at hpaired
      cases hpaired
    exact iff_of_false (fun hswap => by cases hswap.1) hother
  | ok port =>
    obtain ⟨hopen, hpair, hport⟩ := (paired_eq_ok_iff_of_hasPort h hp hin).1 hpaired
    have hout : (r.packet.setOutputPort port.nid).outputPort = port.nid :=
      Packet.outputPort_setOutputPort hpacket (hport.nid_bounds h).2
    constructor
    · rintro ⟨-, hswap⟩
      obtain rfl : port = q := hport.ext hq h (hout.symm.trans hswap)
      exact ⟨hopen, hpair⟩
    · rintro ⟨-, hpair'⟩
      have hid : port.id = q.id := Option.some.inj (hpair.symm.trans hpair')
      have hfind := hport.findId
      rw [hid, hq.findId] at hfind
      exact ⟨rfl, Except.ok.inj hfind ▸ hout⟩

/-- Between two registered ports, swapping leads back from where it led, unless the name of the
first port has the suffix of taps twice. -/
theorem swapsTo_back_iff (h : Reached r.context held) (htaps : r.context.pairing = .taps)
    (hsame : r'.context = r.context) (hp : r.context.HasPort p) (hq : r.context.HasPort q)
    (hin : r.packet.inputPort = p.nid) (hin' : r'.packet.inputPort = q.nid)
    (hswap : r.SwapsTo q.nid) :
    r'.SwapsTo p.nid ↔ ¬ (Port.tapSuffix ++ Port.tapSuffix) <:+ p.id.toList := by
  obtain ⟨hopen, hpair⟩ := (swapsTo_iff h hp hq hin).1 hswap
  rw [swapsTo_iff (hsame ▸ h) (hsame ▸ hq) (hsame ▸ hp) hin', hsame, htaps, and_iff_right hopen]
  rw [htaps] at hpair
  exact Port.tapPair_back_iff hpair

/-- A packet that came in by the port with a NID. -/
def cameIn (c : Context) (pkt : Packet) (nid : Nat) : Run := ⟨c, pkt.setInputPort nid, .port⟩

/-- A context with some ports. -/
def withPorts (ids : List String) : Context :=
  (Caller.run (.fresh "main" 0) (ids.flatMap fun id => [.newPort, .addPort id 0])).context

theorem reached_withPorts (ids : List String) : ∃ held, Reached (withPorts ids) held :=
  ⟨_, .calls _ _⟩

/-- A port and its tap are each other's partners. -/
theorem swapsTo_back_vif0 : ∃ pkt, Packet.parse .payload [0] = .ok pkt ∧
    (cameIn (withPorts ["vif0", "vif0-tap"]) pkt 1).SwapsTo 2 ∧
      (cameIn (withPorts ["vif0", "vif0-tap"]) pkt 2).SwapsTo 1 := by
  obtain ⟨held, hreached⟩ := reached_withPorts ["vif0", "vif0-tap"]
  refine ⟨_, rfl, (and_iff_left_of_imp fun hswap => ?_).2 ⟨rfl, rfl⟩⟩
  refine (swapsTo_back_iff (p := ⟨0, "vif0", 1, .port⟩) (q := ⟨1, "vif0-tap", 2, .port⟩) hreached
    ?_ ?_ ⟨rfl, rfl⟩ ⟨rfl, rfl⟩ ?_ ?_ hswap).2 (by decide)
  all_goals rfl

/-- Swapping leads from a port whose name has the suffix twice to the one whose name has it once,
and from there to a third one. -/
theorem swapsTo_tap_of_tap : ∃ pkt, Packet.parse .payload [0] = .ok pkt ∧
    let c := withPorts ["a-tap-tap", "a-tap", "a"]
    (∃ held, Reached c held) ∧ c.pairing = .taps ∧
      c.HasPort ⟨0, "a-tap-tap", 1, .port⟩ ∧ c.HasPort ⟨1, "a-tap", 2, .port⟩ ∧
      (cameIn c pkt 1).packet.inputPort = 1 ∧ (cameIn c pkt 2).packet.inputPort = 2 ∧
      (cameIn c pkt 1).SwapsTo 2 ∧ (cameIn c pkt 2).SwapsTo 3 ∧ ¬ (cameIn c pkt 2).SwapsTo 1 := by
  exact ⟨_, rfl, reached_withPorts _, rfl, ⟨rfl, rfl⟩, ⟨rfl, rfl⟩, rfl, rfl, ⟨rfl, rfl⟩,
    ⟨rfl, rfl⟩, by decide⟩

end Run

end Dataplane
