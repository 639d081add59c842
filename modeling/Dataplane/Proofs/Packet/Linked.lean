import Dataplane.Proofs.Headers.Orderly
import Mathlib.Data.List.Infix

/-!
# Frames that are read back

A frame tells its headers by what each of them says about the next one, and the first by the kind
the frame is said to start with. A table is *linked* if every header is found as what is said before
it, and the last one says that there is nothing more (`Headers.Linked`).

The bytes of a table with legible headers are read back as the same headers if it is linked
(`Packet.parseHeaders_of_linked`), and if it is not, whatever is read shows other kinds
(`Packet.linked_of_parseHeaders`).

## The model

Both proofs go inwards through the groups that are left inside the last one read. A group without a
header is passed over, so what is left is an end of the list of the groups inside; where there is a
header, it is read, and what is left is all that is inside it.
-/

namespace Dataplane

namespace Headers

variable {s t t' : Headers} {kind : HeaderKind} {g last : HeaderGroup} {gs : List HeaderGroup}
  {e : Entry}

/-- Each header in the groups is found as what was said before it, the first one as `kind`, and
after the last one there is nothing. -/
def Linked (t : Headers) (kind : HeaderKind) : List HeaderGroup → Prop
  | [] => kind = .none
  | g :: gs =>
    match t.get g with
    | none => t.Linked kind gs
    | some e => e.header.FoundAs kind ∧ t.Linked e.header.next gs

instance decidableLinked (t : Headers) (kind : HeaderKind) :
    (gs : List HeaderGroup) → Decidable (t.Linked kind gs)
  | [] => inferInstanceAs (Decidable (kind = .none))
  | g :: gs =>
    match h : t.get g with
    | none =>
      have := t.decidableLinked kind gs
      decidable_of_iff (t.Linked kind gs) (by rw [Linked, h])
    | some e =>
      have := t.decidableLinked e.header.next gs
      decidable_of_iff (e.header.FoundAs kind ∧ t.Linked e.header.next gs) (by rw [Linked, h])

theorem linked_cons_none (h : t.get g = none) : t.Linked kind (g :: gs) ↔ t.Linked kind gs := by
  rw [Linked, h]

theorem linked_cons (h : t.get g = some e) :
    t.Linked kind (g :: gs) ↔ e.header.FoundAs kind ∧ t.Linked e.header.next gs := by
  rw [Linked, h]

end Headers

/-! ### Groups -/

namespace HeaderGroup

variable {g last : HeaderGroup} {gs : List HeaderGroup}

theorem inside_of_suffix (h : g :: gs <:+ last.inside) : gs = g.inside := by
  have hmem : g :: gs ∈ last.inside.tails := (List.mem_tails _ _).mpr h
  revert hmem
  cases last <;> simp [inside] <;> aesop

theorem index_lt_of_mem_inside (h : g ∈ last.inside) : last.index < g.index := by
  revert h
  cases last <;> cases g <;> decide

theorem mem_inside_of_index_lt (h : last.index < g.index) : g ∈ last.inside := by
  revert h
  cases last <;> cases g <;> decide

end HeaderGroup

/-! ### Reading on -/

namespace Packet

open Headers

variable {s t t' : Headers} {kind next start : HeaderKind} {g last : HeaderGroup}
  {gs : List HeaderGroup} {h : Header} {f f' : Frame} {room : Nat}

/-- A header that can be read is read. -/
theorem parseHeaders_of_read (hg : kind.group? = some g) (hlast : last.index < g.index)
    (hread : Header.read kind f = .ok (h, next, f')) :
    parseHeaders (room + 1) last kind f t =
      parseHeaders room g next f' (t.set g (some (.clean h))) := by
  rw [parseHeaders.eq_def]
  cases kind with
  | none => cases hg
  | sixToFourAuto | sixToFourSecure => cases hread
  | _ =>
    cases hg
    refine (if_neg (by omega)).trans ?_
    rw [hread]
    rfl

section

variable (hplaced : s.Placed)
  (hlegible : ∀ g ≠ .packet, ∀ e, s.get g = some e → e.header.Legible (s.around g).inner)
include hplaced hlegible

/-- A legible header that is found as what was said before it, is read, and leaves what is inside
it. -/
theorem read_of_foundAs {e : Entry} (hgs : g :: gs <:+ last.inside) (he : s.get g = some e)
    (hk : e.header.FoundAs kind) (htrailer : kind = .gre → e.header.trailer = [])
    (hf : f.unread = Entry.emitAll (s.entriesOf (g :: gs))) :
    kind.group? = some g ∧ e.header.next ≠ .gre ∧ ∃ f',
      Header.read kind f = .ok (e.header.bare, e.header.next, f') ∧
        f'.unread = Entry.emitAll (s.entriesOf gs) := by
  have hpacket : g ≠ .packet := by
    rintro rfl
    exact absurd (hgs.subset List.mem_cons_self) (by cases last <;> decide)
  have hl := hlegible g hpacket e he
  rw [entriesOf_cons he, Entry.emitAll_cons] at hf
  rw [HeaderGroup.inside_of_suffix hgs] at hf ⊢
  exact ⟨(Header.group_of_foundAs hk).trans (congrArg some (hplaced g e he)),
    Header.next_ne_gre hl, Header.read_of_unread hl hk htrailer hf⟩

/-- The bytes of a linked table are read back as its headers. -/
theorem parseHeaders_of_linked (hgs : gs <:+ last.inside) (hroom : gs.length ≤ room)
    (hlinked : s.Linked kind gs)
    (htrailer : kind = .gre → ∀ g e, s.get g = some e → e.header.trailer = [])
    (hfree : ∀ g ∈ gs, t.get g = none) (hf : f.unread = Entry.emitAll (s.entriesOf gs)) :
    ∃ t', parseHeaders room last kind f t = .ok t' ∧ (∀ g ∉ gs, t'.get g = t.get g) ∧
      ∀ g ∈ gs, t'.get g = (s.get g).map fun e => .clean e.header.bare := by
  induction gs generalizing room last kind f t with
  | nil =>
    cases hlinked
    exact ⟨t, by rw [parseHeaders], fun _ _ => rfl, by simp⟩
  | cons g gs ih =>
    have hrest : gs <:+ last.inside := (List.suffix_cons g gs).trans hgs
    have hfree' : ∀ g' ∈ gs, t.get g' = none := fun g' hg' => hfree g' (List.mem_cons_of_mem _ hg')
    cases he : s.get g with
    | none =>
      rw [entriesOf_cons_none he] at hf
      obtain ⟨t', hparse, hout, hin⟩ := ih hrest (Nat.le_of_succ_le hroom)
        ((linked_cons_none he).mp hlinked) htrailer hfree' hf
      refine ⟨t', hparse, fun g' hg' => hout g' fun h => hg' (List.mem_cons_of_mem _ h),
        fun g' hg' => ?_⟩
      by_cases hmem : g' ∈ gs
      · exact hin g' hmem
      · obtain rfl := (List.mem_cons.mp hg').resolve_right hmem
        rw [hout g' hmem, hfree g' hg', he]
        rfl
    | some e =>
      obtain ⟨hk, hnext⟩ := (linked_cons he).mp hlinked
      obtain ⟨hg, hgre, f', hread, hf'⟩ :=
        read_of_foundAs hplaced hlegible hgs he hk (fun hgre => htrailer hgre g e he) hf
      obtain ⟨room, rfl⟩ := Nat.exists_eq_add_of_le' (Nat.succ_le_of_lt (Nat.zero_lt_of_lt hroom))
      have hlast := HeaderGroup.index_lt_of_mem_inside (hgs.subset List.mem_cons_self)
      have hinside := HeaderGroup.inside_of_suffix hgs
      have hself : g ∉ gs := hinside ▸ HeaderGroup.not_mem_inside_self g
      have hsuffix : gs <:+ g.inside := hinside ▸ List.suffix_rfl
      obtain ⟨t', hparse, hout, hin⟩ := ih (t := t.set g (some (.clean e.header.bare)))
        hsuffix (Nat.le_of_succ_le_succ hroom) hnext
        (fun h => absurd h hgre) (fun g' hg' => by
          rw [get_set_of_ne _ (ne_of_mem_of_not_mem hg' hself), hfree' g' hg']) hf'
      refine ⟨t', (parseHeaders_of_read hg hlast hread).trans hparse, fun g' hg' => ?_,
        fun g' hg' => ?_⟩
      · rw [hout g' fun h => hg' (List.mem_cons_of_mem _ h),
          get_set_of_ne _ (List.ne_of_not_mem_cons hg')]
      · obtain rfl | hmem := List.mem_cons.mp hg'
        · rw [hout g' hself, get_set_self, he]
          rfl
        · exact hin g' hmem

omit hplaced hlegible in
/-- The first header that is read is the first one there is, if what is read shows the same kinds. -/
theorem eq_of_read {g₁ : HeaderGroup} {x y : Entry} (hgs : g :: gs <:+ last.inside)
    (hskipped : ∀ g' ∈ last.inside, g' ∉ g :: gs → s.get g' = none)
    (hfree : ∀ g' ∈ last.inside, t.get g' = none) (hx : s.get g = some x)
    (hlast : last.index < g₁.index)
    (e : parseHeaders room g₁ kind f (t.set g₁ (some y)) = .ok t')
    (hkinds : ∀ g' ∈ last.inside,
      (t'.get g').map (·.header.kinds) = (s.get g').map (·.header.kinds)) : g₁ = g := by
  by_contra hne
  have hg : g ∈ last.inside := hgs.subset List.mem_cons_self
  have hg₁ := HeaderGroup.mem_inside_of_index_lt hlast
  by_cases hmem : g₁ ∈ gs
  · -- The header outside it would have been passed over.
    have hout : g ∉ g₁.inside := fun hin => lt_asymm (HeaderGroup.index_lt_of_mem_inside hin)
      (HeaderGroup.index_lt_of_mem_inside (HeaderGroup.inside_of_suffix hgs ▸ hmem))
    have hshown := hkinds g hg
    rw [get_parseHeaders e hout, get_set_of_ne _ (Ne.symm hne), hfree g hg, hx] at hshown
    cases hshown
  · have hshown := hkinds g₁ hg₁
    rw [get_parseHeaders e (HeaderGroup.not_mem_inside_self g₁), get_set_self,
      hskipped g₁ hg₁ (List.not_mem_cons_of_ne_of_not_mem hne hmem)] at hshown
    cases hshown

/-- If what is read off the bytes of a table shows the same kinds, the table is linked. -/
theorem linked_of_parseHeaders (hgs : gs <:+ last.inside)
    (hskipped : ∀ g ∈ last.inside, g ∉ gs → s.get g = none)
    (htrailer : kind = .gre → ∀ g e, s.get g = some e → e.header.trailer = [])
    (hfree : ∀ g ∈ last.inside, t.get g = none) (hf : f.unread = Entry.emitAll (s.entriesOf gs))
    (e : parseHeaders room last kind f t = .ok t')
    (hkinds : ∀ g ∈ last.inside,
      (t'.get g).map (·.header.kinds) = (s.get g).map (·.header.kinds)) : s.Linked kind gs := by
  induction gs generalizing room last kind f t with
  | nil =>
    obtain ⟨hk, -⟩ | ⟨_, g₁, h, next, f', -, -, hlast, -, hrest⟩ := parseHeaders_cases e
    · exact hk
    · -- A header has been read where there is none.
      have hin := HeaderGroup.mem_inside_of_index_lt hlast
      have hself := get_parseHeaders hrest (HeaderGroup.not_mem_inside_self g₁)
      have hnone := hkinds g₁ hin
      rw [hself, get_set_self, hskipped g₁ hin List.not_mem_nil] at hnone
      cases hnone
  | cons g gs ih =>
    have hrest : gs <:+ last.inside := (List.suffix_cons g gs).trans hgs
    have hg : g ∈ last.inside := hgs.subset List.mem_cons_self
    cases hx : s.get g with
    | none =>
      rw [entriesOf_cons_none hx] at hf
      refine (linked_cons_none hx).mpr (ih hrest (fun g' hin hout => ?_) htrailer hfree hf e hkinds)
      by_cases heq : g' = g
      · rw [heq, hx]
      · exact hskipped g' hin fun hmem => hout ((List.mem_cons.mp hmem).resolve_left heq)
    | some x =>
      have hinside := HeaderGroup.inside_of_suffix hgs
      have hshown := hkinds g hg
      obtain ⟨-, rfl⟩ | ⟨_, g₁, h, next, f', -, hkind, hlast, hread, hparse⟩ := parseHeaders_cases e
      · rw [hfree g hg, hx] at hshown
        cases hshown
      obtain rfl := eq_of_read hgs hskipped hfree hx hlast hparse hkinds
      have hself := get_parseHeaders hparse (HeaderGroup.not_mem_inside_self g₁)
      rw [get_set_self] at hself
      rw [hself, hx] at hshown
      have hfound : x.header.FoundAs kind := by
        have hpacket : x.header.group ≠ .packet := by
          rw [hplaced g₁ x hx]
          rintro rfl
          exact absurd hlast (Nat.not_lt_zero _)
        rw [entriesOf_cons hx, Entry.emitAll_cons] at hf
        exact Header.foundAs_of_read (hkind.trans (congrArg some (hplaced g₁ x hx).symm)) hpacket
          hread hf (Option.some.inj hshown)
      obtain ⟨-, hgre, f'', hread', hf'⟩ :=
        read_of_foundAs hplaced hlegible hgs hx hfound (fun hgre => htrailer hgre g₁ x hx) hf
      cases hread.symm.trans hread'
      refine (linked_cons hx).mpr ⟨hfound, ih (hinside ▸ List.suffix_rfl)
        (fun g' hin hout => absurd (hinside ▸ hin) hout) (fun h => absurd h hgre)
        (fun g' hin => ?_) hf' hparse fun g' hin => hkinds g' (hrest.subset (hinside ▸ hin))⟩
      have hne : g' ≠ g₁ := by
        rintro rfl
        exact HeaderGroup.not_mem_inside_self g' hin
      rw [get_set_of_ne _ hne, hfree g' (hrest.subset (hinside ▸ hin))]

end

end Packet

end Dataplane
