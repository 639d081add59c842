import Dataplane.Header.Basic
import Dataplane.Proofs.Bytes.Fields
import Dataplane.Proofs.Headers.Placement
import Mathlib.Data.Nat.Bitwise

/-!
# The flags of GRE headers

A GRE header says by flags which of its optional words are there. Headers that are read from a frame
say so truly (`Gre.Flagged`), and so does every header that is made from one: setting a flag and
inserting its word go together, and nothing else touches the flags.
-/

namespace Dataplane

namespace Gre

/-- The optional words of a header are there exactly when their flags are set, and no other flag
is. -/
structure Flagged (h : Gre) : Prop where
  known : h.base.num flagsSlot = h.flags
  checksum : h.checksum.isSome ↔ h.flags &&& checksumFlag ≠ 0
  key : h.key.isSome ↔ h.flags &&& keyFlag ≠ 0
  seq : h.seq.isSome ↔ h.flags &&& seqFlag ≠ 0

variable {h h' : Gre}

/-- Setting a flag that is set changes nothing. -/
theorem setFlag_self {k : Nat} (hknown : h.base.num flagsSlot = h.flags)
    (hset : h.flags &&& 2 ^ k ≠ 0) : h.setFlag (2 ^ k) = h.base := by
  have hbit : h.flags.testBit k = true := by
    by_contra hclear
    rw [Bool.not_eq_true] at hclear
    exact hset (by rw [Nat.and_two_pow, hclear]; simp)
  have hor : h.flags ||| 2 ^ k = h.flags := by
    apply Nat.eq_of_testBit_eq
    intro i
    rw [Nat.testBit_or, Nat.testBit_two_pow]
    by_cases hi : k = i
    · simp [← hi, hbit]
    · simp [hi]
  rw [setFlag, hor, ← hknown, Block.setNum_num]

theorem Flagged.setFlag_key (hf : h.Flagged) (hk : h.key.isSome) : h.setFlag keyFlag = h.base :=
  setFlag_self (k := 13) hf.known (hf.key.mp hk)

theorem Flagged.setFlag_seq (hf : h.Flagged) (hs : h.seq.isSome) : h.setFlag seqFlag = h.base :=
  setFlag_self (k := 12) hf.known (hf.seq.mp hs)

/-- The flags after one of them has been set. -/
theorem num_setFlag (h : Gre) {flag : Nat}
    (hflag : flag &&& (checksumFlag ||| keyFlag ||| seqFlag) = flag) :
    (h.setFlag flag).num flagsSlot = h.flags ||| flag ∧
      (h.flags ||| flag) &&& (checksumFlag ||| keyFlag ||| seqFlag) = h.flags ||| flag := by
  have hor : (h.flags ||| flag) &&& (checksumFlag ||| keyFlag ||| seqFlag) = h.flags ||| flag := by
    rw [Nat.and_or_distrib_right, hflag, flags, Nat.and_assoc, Nat.and_self]
  have hlt : h.flags ||| flag < 65536 := by
    rw [← hor]
    exact lt_of_le_of_lt Nat.and_le_right (by decide)
  exact ⟨by rw [setFlag, Block.num_setNum]; exact Nat.mod_eq_of_lt hlt, hor⟩

/-- A header with the flags and the optional words of a flagged one is flagged. -/
theorem Flagged.congr (hf : h.Flagged) (hb : h'.base.num flagsSlot = h.base.num flagsSlot)
    (hc : h'.checksum.isSome = h.checksum.isSome) (hk : h'.key.isSome = h.key.isSome)
    (hs : h'.seq.isSome = h.seq.isSome) : h'.Flagged := by
  have hfl : h'.flags = h.flags := by rw [flags, flags, hb]
  exact ⟨by rw [hb, hfl, hf.known], by rw [hc, hfl, hf.checksum], by rw [hk, hfl, hf.key],
    by rw [hs, hfl, hf.seq]⟩

theorem flagged_fresh : fresh.Flagged := by
  constructor <;> decide

/-- What the flags say of other words is as before when a flag is set. -/
theorem or_and_of_apart {n flag flag' : Nat} (h : flag &&& flag' = 0) :
    (n ||| flag) &&& flag' = n &&& flag' := by
  rw [Nat.and_or_distrib_right, h, Nat.or_zero]

theorem or_and_self_ne_zero {n flag : Nat} (h : flag ≠ 0) : (n ||| flag) &&& flag ≠ 0 := by
  rw [Nat.and_or_distrib_right, Nat.and_self]
  intro hzero
  exact h (Nat.or_eq_zero_iff.mp hzero).2

theorem flags_of_setFlag {flag : Nat} (hb : h'.base = h.setFlag flag)
    (hflag : flag &&& (checksumFlag ||| keyFlag ||| seqFlag) = flag) :
    h'.base.num flagsSlot = h'.flags ∧ h'.flags = h.flags ||| flag := by
  obtain ⟨hnum, hor⟩ := num_setFlag h hflag
  have hfl : h'.flags = h.flags ||| flag := by rw [flags, hb, hnum, hor]
  exact ⟨by rw [hb, hnum, hfl], hfl⟩

theorem Flagged.update (hf : h.Flagged) {num : FieldNum} {op : FieldOp} {arg : Bytes}
    (e : h.update? num op arg = some h') : h'.Flagged := by
  cases num <;> simp only [update?, reduceCtorEq, Option.some.injEq] at e
  case greProtocol =>
    subst e
    have hb : (h.base.update typeSlot op arg).num flagsSlot = h.base.num flagsSlot :=
      congrArg Bytes.toNat (Block.get_set_of_apart (by decide) _ _)
    exact hf.congr hb rfl rfl rfl
  case greKey =>
    obtain ⟨hknown, hfl⟩ := flags_of_setFlag (show h'.base = h.setFlag _ by rw [← e]) (by decide)
    refine ⟨hknown, ?_, ?_, ?_⟩ <;> rw [hfl, ← e]
    · rw [or_and_of_apart (by decide)]; exact hf.checksum
    · simp [updateWord, or_and_self_ne_zero (show keyFlag ≠ 0 by decide)]
    · rw [or_and_of_apart (by decide)]; exact hf.seq
  case greSeq =>
    obtain ⟨hknown, hfl⟩ := flags_of_setFlag (show h'.base = h.setFlag _ by rw [← e]) (by decide)
    refine ⟨hknown, ?_, ?_, ?_⟩ <;> rw [hfl, ← e]
    · rw [or_and_of_apart (by decide)]; exact hf.checksum
    · rw [or_and_of_apart (by decide)]; exact hf.key
    · simp [updateWord, or_and_self_ne_zero (show seqFlag ≠ 0 by decide)]

theorem isSome_of_readWord {fl flag : Nat} {f f' : Frame} {word : Option (Block 4)}
    (e : readWord fl flag f = .ok (word, f')) : word.isSome ↔ fl &&& flag ≠ 0 := by
  unfold readWord at e
  split at e
  · cases e
    simp [*]
  · obtain ⟨⟨w, f''⟩, -, e⟩ := bind_eq_ok_iff.mp e
    cases e
    simp [*]

theorem flagged_of_read {f f' : Frame} (e : read f = .ok (h, f')) : h.Flagged := by
  obtain ⟨⟨base, f₁⟩, -, e⟩ := bind_eq_ok_iff.mp e
  dsimp only at e
  split at e
  · cases e
  · split at e
    · cases e
    · rename_i hknown
      obtain ⟨⟨checksum, f₂⟩, h₂, e⟩ := bind_eq_ok_iff.mp e
      obtain ⟨⟨key, f₃⟩, h₃, e⟩ := bind_eq_ok_iff.mp e
      obtain ⟨⟨seq, f₄⟩, h₄, e⟩ := bind_eq_ok_iff.mp e
      cases e
      have hfl : Gre.flags ⟨base, checksum, key, seq⟩ = base.num flagsSlot := not_not.mp hknown
      exact ⟨hfl.symm, by rw [hfl]; exact isSome_of_readWord h₂,
        by rw [hfl]; exact isSome_of_readWord h₃, by rw [hfl]; exact isSome_of_readWord h₄⟩

theorem flagged_of_reload {b : Bytes} (e : h.reload? b = some h') : h'.Flagged := by
  unfold reload? at e
  split at e
  · rename_i hread
    split at e
    · cases e
      exact flagged_of_read hread
    · cases e
  · cases e

theorem Flagged.stampChecksum (hf : h.Flagged) (inner : Bytes) :
    (h.stampChecksum inner).Flagged := by
  unfold Gre.stampChecksum
  split
  · exact hf
  · rename_i w hw
    exact hf.congr rfl (by simp [hw]) rfl rfl

theorem Flagged.rebuild (hf : h.Flagged) (type : Option Nat) (inner : Bytes) :
    (h.rebuild type inner).Flagged := by
  unfold Gre.rebuild
  cases type with
  | none => exact hf.stampChecksum inner
  | some t =>
    have hb : (h.base.setNum typeSlot t).num flagsSlot = h.base.num flagsSlot :=
      congrArg Bytes.toNat (Block.get_setNum_of_apart (by decide) _ _)
    have hf' : Gre.Flagged { h with base := h.base.setNum typeSlot t } := hf.congr hb rfl rfl rfl
    exact hf'.stampChecksum inner

end Gre

/-! ### Chains and headers -/

/-- A header that is flagged if it is a GRE header. -/
def IpHeader.Flagged (h : IpHeader) : Prop := ∀ g, h = .gre g → g.Flagged

namespace IpHeader

variable {h h' : IpHeader}

theorem flagged_gre {g : Gre} : (gre g).Flagged ↔ g.Flagged :=
  ⟨fun h => h g rfl, fun h _ e => by cases e; exact h⟩

theorem Flagged.update (hf : h.Flagged) {num : FieldNum} {op : FieldOp} {arg : Bytes} {dirty : Bool}
    (e : h.update? num op arg = some (h', dirty)) : h'.Flagged := by
  rintro g rfl
  cases h <;> simp only [update?, Option.map_eq_some_iff, Prod.mk.injEq, reduceCtorEq, false_and,
    and_false, exists_false, gre.injEq] at e
  obtain ⟨_, hu, rfl, -⟩ := e
  exact (flagged_gre.mp hf).update hu

theorem flagged_of_read {kind : HeaderKind} {f f' : Frame} (e : read kind f = .ok (h, f')) :
    h.Flagged := by
  rintro g rfl
  unfold read at e
  split at e
  · obtain ⟨_, -, e⟩ := bind_eq_ok_iff.mp e
    cases e
  · obtain ⟨_, -, e⟩ := bind_eq_ok_iff.mp e
    cases e
  · obtain ⟨_, hread, e⟩ := bind_eq_ok_iff.mp e
    cases e
    exact Gre.flagged_of_read hread
  · cases e

theorem flagged_of_reload {b : Bytes} (e : h.reload? b = some h') : h'.Flagged := by
  rintro g rfl
  cases h <;> simp only [reload?, Option.map_eq_some_iff, reduceCtorEq, and_false, exists_false,
    gre.injEq] at e
  obtain ⟨_, hr, rfl⟩ := e
  exact Gre.flagged_of_reload hr

end IpHeader

theorem IpHeader.Flagged.rebuildHeader {h : IpHeader} (hf : h.Flagged) (around : Surroundings)
    (dirty : Bool) (inside : List IpHeader) :
    (IpChain.rebuildHeader around dirty h inside).Flagged := by
  cases h with
  | v4 h => exact fun g e => by cases e
  | v6 h => exact fun g e => by cases e
  | gre h => exact flagged_gre.mpr ((flagged_gre.mp hf).rebuild _ _)

namespace IpChain

variable {c c' : IpChain} {P : IpHeader → Prop}

/-! What every header of a chain has, the chain has after each operation that gives it to the header
it makes. -/

theorem forall_of_readHeaders (hP : ∀ k f h f', IpHeader.read k f = .ok (h, f') → P h) {fuel : Nat}
    {kind next : HeaderKind} {f f' : Frame} {hs : List IpHeader}
    (e : readHeaders fuel kind f = .ok (hs, next, f')) : ∀ h ∈ hs, P h := by
  induction fuel generalizing kind f hs with
  | zero =>
    cases e
    simp
  | succ fuel ih =>
    rw [readHeaders] at e
    split at e
    · obtain ⟨⟨h, f₁⟩, hread, e⟩ := bind_eq_ok_iff.mp e
      obtain ⟨⟨hs', next', f₂⟩, hrest, e⟩ := bind_eq_ok_iff.mp e
      cases e
      exact List.forall_mem_cons.mpr ⟨hP _ _ _ _ hread, ih hrest⟩
    · cases e
      simp

theorem forall_of_read (hP : ∀ k f h f', IpHeader.read k f = .ok (h, f') → P h)
    {kind next : HeaderKind} {f f' : Frame} (e : read kind f = .ok (c, next, f')) :
    ∀ h ∈ c.headers, P h := by
  obtain ⟨⟨h, f₁⟩, hread, e⟩ := bind_eq_ok_iff.mp e
  obtain ⟨⟨trailer, f₂⟩, -, e⟩ := bind_eq_ok_iff.mp e
  obtain ⟨⟨hs, next', f₃⟩, hrest, e⟩ := bind_eq_ok_iff.mp e
  cases e
  exact List.forall_mem_cons.mpr ⟨hP _ _ _ _ hread, forall_of_readHeaders hP hrest⟩

theorem forall_of_reload (hP : ∀ h b h', IpHeader.reload? h b = some h' → P h') {b : Bytes}
    (e : c.reload? b = some c') : ∀ h ∈ c'.headers, P h := by
  obtain ⟨hs, hre, rfl⟩ := Option.map_eq_some_iff.mp e
  show ∀ h ∈ hs, P h
  generalize c.headers = old at hre
  clear e
  induction old generalizing b hs with
  | nil =>
    obtain ⟨-, rfl⟩ : b = [] ∧ [] = hs := by simpa [reloadHeaders?] using hre
    simp
  | cons h old ih =>
    rw [reloadHeaders?] at hre
    split at hre
    · rename_i h' hh
      obtain ⟨hs', hrest, rfl⟩ := Option.map_eq_some_iff.mp hre
      exact List.forall_mem_cons.mpr ⟨hP _ _ _ hh, ih _ hrest⟩
    · cases hre

/-- The headers that encapsulation puts in front of a chain. -/
theorem freshOuter_cases {kind : HeaderKind} {h : IpHeader} (e : c.freshOuter kind = .ok h) :
    h = .v6 .fresh ∨ h = .gre .fresh ∨ h = .v4 .fresh ∨ ∃ src dst, h = .v4 (.between src dst) := by
  have tunnel {k : HeaderKind} {v : Ipv4} (hv : c.sixToFourOuter k = .ok v) :
      ∃ src dst, v = .between src dst := by
    unfold sixToFourOuter at hv
    split at hv
    · split at hv
      · cases hv
      · cases hv
        exact ⟨_, _, rfl⟩
      · split at hv
        · cases hv
        · cases hv
          exact ⟨_, _, rfl⟩
    · cases hv
  unfold freshOuter at e
  split at e
  · cases e
    exact .inr (.inr (.inl rfl))
  · cases e
    exact .inl rfl
  · split at e
    · cases e
    · cases e
      exact .inr (.inl rfl)
  · obtain ⟨v, hv, rfl⟩ := map_eq_ok_iff.mp e
    obtain ⟨src, dst, rfl⟩ := tunnel hv
    exact .inr (.inr (.inr ⟨src, dst, rfl⟩))
  · obtain ⟨v, hv, rfl⟩ := map_eq_ok_iff.mp e
    obtain ⟨src, dst, rfl⟩ := tunnel hv
    exact .inr (.inr (.inr ⟨src, dst, rfl⟩))
  · cases e

/-- An operation on a field changes one header of the chain. -/
theorem update_eq_ok_iff {num : FieldNum} {inst : Instance} {op : FieldOp} {arg : Bytes}
    {dirty : Bool} : c.update num inst op arg = .ok (c', dirty) ↔
      ∃ i h h', c.place? num inst = some i ∧ c.headers[i]? = some h ∧
        h.update? num op arg = some (h', dirty) ∧
        { c with headers := c.headers.set i h' } = c' := by
  unfold update
  cases c.place? num inst with
  | none => simp
  | some i =>
    cases hh : c.headers[i]? with
    | none => simp [hh]
    | some h =>
      cases hu : h.update? num op arg with
      | none => simp [hh, hu]
      | some r =>
        obtain ⟨h', d⟩ := r
        simp only [hh, hu, Option.bind_eq_bind, Option.bind_some, Option.pure_def, Except.ok.injEq,
          Prod.mk.injEq]
        constructor
        · rintro ⟨rfl, rfl⟩
          exact ⟨i, h, h', rfl, hh, hu, rfl⟩
        · rintro ⟨j, x, x', ⟨rfl⟩, hx, hu', rfl⟩
          cases hh.symm.trans hx
          cases hu.symm.trans hu'
          exact ⟨rfl, rfl⟩

theorem forall_update (hc : ∀ h ∈ c.headers, P h) {num : FieldNum} {inst : Instance} {op : FieldOp}
    {arg : Bytes} {dirty : Bool}
    (hP : ∀ h h' d, P h → h.update? num op arg = some (h', d) → P h')
    (e : c.update num inst op arg = .ok (c', dirty)) : ∀ h ∈ c'.headers, P h := by
  obtain ⟨i, h, h', -, hh, hu, rfl⟩ := update_eq_ok_iff.mp e
  intro x hx
  obtain hx | rfl := List.mem_or_eq_of_mem_set hx
  · exact hc x hx
  · exact hP h x _ (hc h (List.mem_of_getElem? hh)) hu

theorem forall_push (hc : ∀ h ∈ c.headers, P h) (hP : ∀ k h, c.freshOuter k = .ok h → P h)
    {kind : HeaderKind} (e : c.push kind = .ok c') : ∀ h ∈ c'.headers, P h := by
  obtain ⟨h, hfresh, rfl⟩ := map_eq_ok_iff.mp e
  exact List.forall_mem_cons.mpr ⟨hP _ _ hfresh, hc⟩

theorem forall_pop (hc : ∀ h ∈ c.headers, P h) {kind : HeaderKind} {done : Bool}
    (e : c.pop kind = .ok (c', done)) : ∀ h ∈ c'.headers, P h := by
  obtain ⟨-, -, e⟩ := bind_eq_ok_iff.mp e
  cases e
  exact fun h hh => hc h (List.mem_of_mem_tail hh)

theorem forall_rebuild {around : Surroundings} {dirty : Bool}
    (hP : ∀ h inside, P h → P (rebuildHeader around dirty h inside)) (hc : ∀ h ∈ c.headers, P h) :
    ∀ h ∈ (c.rebuild around dirty).headers, P h := by
  show ∀ h ∈ rebuildHeaders around dirty c.headers, P h
  generalize c.headers = hs at hc
  induction hs with
  | nil => simp [rebuildHeaders]
  | cons h hs ih =>
    obtain ⟨hh, hs'⟩ := List.forall_mem_cons.mp hc
    exact List.forall_mem_cons.mpr ⟨hP _ _ hh, ih hs'⟩

end IpChain

/-- A header whose GRE headers, if it is a chain, are flagged. -/
def Header.Flagged (h : Header) : Prop := ∀ c, h = .ip c → ∀ x ∈ c.headers, x.Flagged

namespace Header

variable {h h' : Header}

theorem flagged_ip {c : IpChain} : (ip c).Flagged ↔ ∀ x ∈ c.headers, x.Flagged :=
  ⟨fun h => h c rfl, fun h _ e => by cases e; exact h⟩

theorem flagged_of_group (hg : h.group ≠ .l3) : h.Flagged := by
  rintro c rfl
  exact absurd rfl hg

theorem Flagged.update (hf : h.Flagged) {num : FieldNum} {inst : Instance} {op : FieldOp}
    {arg : Bytes} {dirty : Bool} (e : h.update num inst op arg = .ok (h', dirty)) :
    h'.Flagged := by
  rintro c rfl
  cases h <;> simp only [Header.update, map_eq_ok_iff, Prod.mk.injEq, reduceCtorEq, false_and,
    and_false, exists_false, ip.injEq] at e
  case ip c' =>
    obtain ⟨⟨c'', d⟩, hu, rfl, -⟩ := e
    exact IpChain.forall_update (hf c' rfl) (fun _ _ _ hx => hx.update) hu
  case payload => simp [orAbsent] at e

theorem flagged_of_reload {b : Bytes} (e : h.reload? b = some h') : h'.Flagged := by
  rintro c rfl
  cases h <;> simp only [reload?, Option.map_eq_some_iff, Option.ite_none_right_eq_some,
    Option.some.injEq, reduceCtorEq, and_false, exists_false, ip.injEq] at e
  obtain ⟨c', hr, rfl⟩ := e
  exact IpChain.forall_of_reload (fun _ _ _ => IpHeader.flagged_of_reload) hr

theorem Flagged.push (hf : h.Flagged) {kind : HeaderKind} (e : h.push kind = .ok h') :
    h'.Flagged := by
  rintro c rfl
  cases h <;> simp only [Header.push, map_eq_ok_iff, reduceCtorEq, and_false, exists_false,
    ip.injEq] at e
  case ip c' =>
    obtain ⟨c'', hp, rfl⟩ := e
    refine IpChain.forall_push (hf c' rfl) (fun k x hx => ?_) hp
    obtain rfl | rfl | rfl | ⟨_, _, rfl⟩ := IpChain.freshOuter_cases hx
    · exact fun g e => by cases e
    · exact IpHeader.flagged_gre.mpr Gre.flagged_fresh
    · exact fun g e => by cases e
    · exact fun g e => by cases e

theorem Flagged.pop (hf : h.Flagged) {kind : HeaderKind} {done : Bool}
    (e : h.pop kind = .ok (h', done)) : h'.Flagged := by
  rintro c rfl
  cases h <;> simp only [Header.pop, popSole, map_eq_ok_iff, Prod.mk.injEq, reduceCtorEq, false_and,
    and_false, exists_false, ip.injEq] at e
  case ip c' =>
    obtain ⟨⟨c'', d⟩, hp, rfl, -⟩ := e
    exact IpChain.forall_pop (hf c' rfl) hp
  all_goals
    split at e <;> simp at e

theorem Flagged.attach (hf : h.Flagged) (around : Surroundings) : (h.attach around).Flagged := by
  cases h with
  | ip c => exact hf
  | _ => exact fun c e => by cases e

theorem Flagged.rebuild (hf : h.Flagged) (around : Surroundings) (dirty : Bool) :
    (h.rebuild around dirty).Flagged := by
  cases h with
  | ip c =>
    exact flagged_ip.mpr (IpChain.forall_rebuild (fun _ _ hx => hx.rebuildHeader _ _ _)
      (flagged_ip.mp hf))
  | _ => exact fun c e => by cases e

theorem flagged_fresh {kind : HeaderKind} (e : fresh kind = .ok h) : h.Flagged := by
  rintro c rfl
  cases kind <;> simp only [fresh, map_eq_ok_iff, reduceCtorEq, and_false, exists_false, ip.injEq,
    Except.ok.injEq, IpChain.fresh] at e
  all_goals
    obtain ⟨_, rfl, rfl⟩ := e
    simp [IpHeader.Flagged]

theorem flagged_of_read {kind next : HeaderKind} {f f' : Frame}
    (e : read kind f = .ok (h, next, f')) : h.Flagged := by
  rintro c rfl
  cases kind <;> simp only [read, bind_eq_ok_iff, pure, Except.pure, Except.ok.injEq, Prod.mk.injEq,
    reduceCtorEq, false_and, and_false, exists_false, ip.injEq] at e
  all_goals
    obtain ⟨⟨c', next', f''⟩, hr, rfl, -⟩ := e
    exact IpChain.forall_of_read (fun _ _ _ _ => IpHeader.flagged_of_read) hr

end Header

end Dataplane
