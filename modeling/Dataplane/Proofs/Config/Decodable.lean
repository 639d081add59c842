import Dataplane.Config.Compact
import Mathlib.Data.List.Basic

/-!
# The byte form of actions can be read back

The byte form of an action has no names and no ends. It can be read back all the same: no two
actions have the same form, and no form goes on as another one does.

## The model

`Bytes.PrefixFree f` says that what `f` writes tells where it ends: if two of its forms begin the
same bytes, they are forms of one value and what follows them is the same. The building blocks of the
byte form keep this, and so do the forms of the parts of a configuration. The form of an action
begins with the number of its variant, and what follows is read off one part after the other.
-/

namespace Dataplane

namespace Bytes

variable {α β : Type}

/-- Forms that begin the same bytes are those of one value, and the same bytes follow them. -/
def PrefixFree (f : α → Bytes) : Prop :=
  ∀ {a b : α} {r s : Bytes}, f a ++ r = f b ++ s → a = b ∧ r = s

theorem PrefixFree.injective {f : α → Bytes} (hf : PrefixFree f) : Function.Injective f :=
  fun a b h => (hf (r := []) (s := []) (by simpa using h)).1

/-! ### Numbers -/

/-- The last byte of a number stands alone. -/
theorem varint_of_lt {n : Nat} (h : n < 128) : varint n = [UInt8.ofNat n] := by
  rw [varint, dif_pos h]

/-- The high bit says that more is to come. -/
theorem varint_of_le {n : Nat} (h : 128 ≤ n) :
    varint n = UInt8.ofNat (n % 128 + 128) :: varint (n / 128) := by
  rw [varint, dif_neg (by omega)]

theorem ofNat_inj {m n : Nat} (hm : m < 256) (hn : n < 256) (h : UInt8.ofNat m = UInt8.ofNat n) :
    m = n := by
  have := congrArg UInt8.toNat h
  simpa [Nat.mod_eq_of_lt hm, Nat.mod_eq_of_lt hn] using this

/-- The first byte of a number says whether it is the last one, so that both numbers end at the same
place. -/
theorem prefixFree_varint : PrefixFree varint := by
  intro m n r s h
  induction m using Nat.strongRecOn generalizing n with
  | ind m ih =>
    rcases Nat.lt_or_ge m 128 with hm | hm <;> rcases Nat.lt_or_ge n 128 with hn | hn
    · rw [varint_of_lt hm, varint_of_lt hn] at h
      obtain ⟨hhead, rfl⟩ := List.cons.inj h
      exact ⟨ofNat_inj (by omega) (by omega) hhead, rfl⟩
    · rw [varint_of_lt hm, varint_of_le hn] at h
      have := ofNat_inj (by omega) (by omega) (List.cons.inj h).1
      omega
    · rw [varint_of_le hm, varint_of_lt hn] at h
      have := ofNat_inj (by omega) (by omega) (List.cons.inj h).1
      omega
    · rw [varint_of_le hm, varint_of_le hn] at h
      obtain ⟨hhead, htail⟩ := List.cons.inj h
      have hlow := ofNat_inj (by omega) (by omega) hhead
      obtain ⟨hhigh, rfl⟩ := ih (m / 128) (by omega) htail
      exact ⟨by omega, rfl⟩

/-! ### Texts, options and lists -/

theorem prefixFree_ofBool : PrefixFree ofBool := by
  intro a b r s h
  cases a <;> cases b <;> simp_all [ofBool]

theorem prefixFree_sized : PrefixFree sized := by
  intro a b r s h
  simp only [sized, List.append_assoc] at h
  obtain ⟨hlength, h⟩ := prefixFree_varint h
  exact List.append_inj h hlength

/-- The bytes of an array are listed from a place on, behind those listed before. -/
theorem toList_loop (b : ByteArray) (i : Nat) (r : List UInt8) :
    ByteArray.toList.loop b i r = r.reverse ++ b.data.toList.drop i := by
  fun_induction ByteArray.toList.loop b i r with
  | case1 i r h ih =>
    have hi : i < b.data.toList.length := by simpa using h
    have hget : b.get! i = b.data.toList[i] := getElem!_pos b.data i hi
    rw [ih, hget, List.drop_eq_getElem_cons hi, List.reverse_cons, List.append_assoc,
      List.singleton_append]
  | case2 i r h =>
    have hi : b.data.toList.length ≤ i := by simpa using h
    rw [List.drop_eq_nil_of_le hi, List.append_nil]

theorem prefixFree_ofText : PrefixFree ofText := by
  intro a b r s h
  obtain ⟨hbytes, rfl⟩ := prefixFree_sized h
  have hdata : a.toUTF8.data.toList = b.toUTF8.data.toList := by
    simpa [ByteArray.toList, toList_loop] using hbytes
  have harray : a.toUTF8 = b.toUTF8 := ByteArray.ext (Array.toList_inj.1 hdata)
  exact ⟨String.toByteArray_inj.1 harray, rfl⟩

theorem prefixFree_ofOption {f : α → Bytes} (hf : PrefixFree f) : PrefixFree (ofOption f) := by
  intro a b r s h
  cases a <;> cases b <;> simp only [ofOption, List.cons_append, List.cons.injEq] at h
  · exact ⟨rfl, h.2⟩
  · exact absurd h.1 (by decide)
  · exact absurd h.1 (by decide)
  · obtain ⟨rfl, rfl⟩ := hf h.2
    exact ⟨rfl, rfl⟩

/-- Forms of as many values, one after the other. -/
theorem PrefixFree.flatMap_inj {f : α → Bytes} (hf : PrefixFree f) {k l : List α} {r s : Bytes}
    (hlength : k.length = l.length) (h : k.flatMap f ++ r = l.flatMap f ++ s) : k = l ∧ r = s := by
  induction k generalizing l r s with
  | nil =>
    obtain rfl : l = [] := List.length_eq_zero_iff.1 hlength.symm
    exact ⟨rfl, h⟩
  | cons a k ih =>
    cases l with
    | nil => simp at hlength
    | cons b l =>
      simp only [List.flatMap_cons, List.append_assoc] at h
      obtain ⟨rfl, htail⟩ := hf h
      obtain ⟨rfl, rfl⟩ := ih (by simpa using hlength) htail
      exact ⟨rfl, rfl⟩

theorem prefixFree_ofList {f : α → Bytes} (hf : PrefixFree f) : PrefixFree (ofList f) := by
  intro k l r s h
  simp only [ofList, List.append_assoc] at h
  obtain ⟨hlength, h⟩ := prefixFree_varint h
  exact hf.flatMap_inj hlength h

/-- The form of a pair. -/
theorem PrefixFree.pair {f : α → Bytes} {g : β → Bytes} (hf : PrefixFree f) (hg : PrefixFree g) :
    PrefixFree fun p : α × β => f p.1 ++ g p.2 := by
  intro p q r s h
  simp only [List.append_assoc] at h
  obtain ⟨hfst, h⟩ := hf h
  obtain ⟨hsnd, rfl⟩ := hg h
  exact ⟨Prod.ext hfst hsnd, rfl⟩

/-! ### Members of finite types -/

/-- A finite type whose list of members leaves out none. -/
theorem prefixFree_ofMember [BEq α] [LawfulBEq α] [Enumerated α]
    (hall : ∀ a : α, a ∈ (Enumerated.all : List α)) : PrefixFree (ofMember : α → Bytes) := by
  intro a b r s h
  obtain ⟨hindex, rfl⟩ := prefixFree_varint h
  exact ⟨(List.idxOf_inj (hall a)).1 hindex, rfl⟩

end Bytes

open Bytes

theorem HeaderKind.prefixFree_ofMember : PrefixFree (ofMember : HeaderKind → Bytes) :=
  Bytes.prefixFree_ofMember fun k => by cases k <;> decide

theorem HeaderGroup.prefixFree_ofMember : PrefixFree (ofMember : HeaderGroup → Bytes) :=
  Bytes.prefixFree_ofMember fun g => by cases g <;> decide

theorem FieldNum.prefixFree_ofMember : PrefixFree (ofMember : FieldNum → Bytes) :=
  Bytes.prefixFree_ofMember fun num => by cases num <;> decide

theorem UpdateOp.prefixFree_ofMember : PrefixFree (ofMember : UpdateOp → Bytes) :=
  Bytes.prefixFree_ofMember fun op => by cases op <;> decide

theorem SelectAlgo.prefixFree_ofMember : PrefixFree (ofMember : SelectAlgo → Bytes) :=
  Bytes.prefixFree_ofMember fun a => by cases a <;> decide

theorem prefixFree_uint16 : PrefixFree fun n : UInt16 => varint n.toNat := by
  intro a b r s h
  obtain ⟨hnat, rfl⟩ := prefixFree_varint h
  exact ⟨UInt16.toNat_inj.1 hnat, rfl⟩

theorem prefixFree_uint64 : PrefixFree fun n : UInt64 => varint n.toNat := by
  intro a b r s h
  obtain ⟨hnat, rfl⟩ := prefixFree_varint h
  exact ⟨UInt64.toNat_inj.1 hnat, rfl⟩

theorem FieldId.prefixFree_compact : PrefixFree FieldId.compact := by
  intro a b r s h
  cases a with
  | field num i =>
    cases b with
    | field num' i' =>
      simp only [compact, List.append_assoc, List.cons_append, List.nil_append, List.cons.injEq,
        true_and] at h
      obtain ⟨rfl, hinst⟩ := FieldNum.prefixFree_ofMember h
      obtain ⟨hval, rfl⟩ := List.cons.inj hinst
      obtain rfl : i = i' := by cases i; cases i'; cases hval; rfl
      exact ⟨rfl, rfl⟩
    | udf => simp [compact] at h
  | udf g offset size i =>
    cases b with
    | field => simp [compact] at h
    | udf g' offset' size' i' =>
      simp only [compact, List.append_assoc, List.cons_append, List.nil_append, List.cons.injEq,
        true_and] at h
      obtain ⟨rfl, hoffset⟩ := HeaderGroup.prefixFree_ofMember h
      obtain ⟨rfl, hsize⟩ := prefixFree_uint16 hoffset
      obtain ⟨rfl, hinst⟩ := prefixFree_uint16 hsize
      obtain ⟨hval, rfl⟩ := List.cons.inj hinst
      obtain rfl : i = i' := by cases i; cases i'; cases hval; rfl
      exact ⟨rfl, rfl⟩

theorem UpdateConfig.prefixFree_compact : PrefixFree UpdateConfig.compact := by
  intro u v r s h
  obtain ⟨field, op, value, src, bitOffset, bitCount⟩ := u
  obtain ⟨field', op', value', src', bitOffset', bitCount'⟩ := v
  simp only [compact, List.append_assoc] at h
  obtain ⟨rfl, hop⟩ := FieldId.prefixFree_compact h
  obtain ⟨rfl, hvalue⟩ := UpdateOp.prefixFree_ofMember hop
  obtain ⟨rfl, hsrc⟩ := prefixFree_sized hvalue
  obtain ⟨rfl, hoffset⟩ := prefixFree_ofOption FieldId.prefixFree_compact hsrc
  obtain ⟨rfl, hcount⟩ := prefixFree_uint16 hoffset
  obtain ⟨rfl, rfl⟩ := prefixFree_uint16 hcount
  exact ⟨rfl, rfl⟩

/-! ### Actions -/

mutual

/-- The variants have different numbers, and the parts of a variant are read off in order. -/
theorem ActionConfig.compact_append_inj : (a b : ActionConfig) → {r s : Bytes} →
    a.compact ++ r = b.compact ++ s → a = b ∧ r = s
  | .proceed, b, r, s, h => by
    cases b with
    | proceed => exact ⟨rfl, (List.cons.inj h).2⟩
    | _ => simp [ActionConfig.compact] at h
  | .drop, b, r, s, h => by
    cases b with
    | drop => exact ⟨rfl, (List.cons.inj h).2⟩
    | _ => simp [ActionConfig.compact] at h
  | .debug, b, r, s, h => by
    cases b with
    | debug => exact ⟨rfl, (List.cons.inj h).2⟩
    | _ => simp [ActionConfig.compact] at h
  | .decap k, b, r, s, h => by
    cases b with
    | decap k' =>
      obtain ⟨rfl, rfl⟩ := HeaderKind.prefixFree_ofMember (List.cons.inj h).2
      exact ⟨rfl, rfl⟩
    | _ => simp [ActionConfig.compact] at h
  | .encap k, b, r, s, h => by
    cases b with
    | encap k' =>
      obtain ⟨rfl, rfl⟩ := HeaderKind.prefixFree_ofMember (List.cons.inj h).2
      exact ⟨rfl, rfl⟩
    | _ => simp [ActionConfig.compact] at h
  | .evaluate, b, r, s, h => by
    cases b with
    | evaluate => exact ⟨rfl, (List.cons.inj h).2⟩
    | _ => simp [ActionConfig.compact] at h
  | .output, b, r, s, h => by
    cases b with
    | output => exact ⟨rfl, (List.cons.inj h).2⟩
    | _ => simp [ActionConfig.compact] at h
  | .transmit port immediate, b, r, s, h => by
    cases b with
    | transmit port' immediate' =>
      simp only [ActionConfig.compact, List.append_assoc, List.cons_append, List.nil_append,
        List.cons.injEq, true_and] at h
      obtain ⟨rfl, himmediate⟩ := prefixFree_ofText h
      obtain ⟨rfl, rfl⟩ := prefixFree_ofBool himmediate
      exact ⟨rfl, rfl⟩
    | _ => simp [ActionConfig.compact] at h
  | .lookup table, b, r, s, h => by
    cases b with
    | lookup table' =>
      obtain ⟨rfl, rfl⟩ := prefixFree_ofText (List.cons.inj h).2
      exact ⟨rfl, rfl⟩
    | _ => simp [ActionConfig.compact] at h
  | .mirror port actions fields, b, r, s, h => by
    cases b with
    | mirror port' actions' fields' =>
      simp only [ActionConfig.compact, List.append_assoc, List.cons_append, List.nil_append,
        List.cons.injEq, true_and] at h
      obtain ⟨rfl, hnumber⟩ := prefixFree_ofOption prefixFree_ofText h
      obtain ⟨hlength, hactions⟩ := prefixFree_varint hnumber
      obtain ⟨rfl, hfields⟩ := listedCompact_append_inj actions actions' hlength hactions
      obtain ⟨rfl, rfl⟩ := prefixFree_ofList FieldId.prefixFree_compact hfields
      exact ⟨rfl, rfl⟩
    | _ => simp [ActionConfig.compact] at h
  | .ratelimit rate burst, b, r, s, h => by
    cases b with
    | ratelimit rate' burst' =>
      simp only [ActionConfig.compact, List.append_assoc, List.cons_append, List.nil_append,
        List.cons.injEq, true_and] at h
      obtain ⟨rfl, hburst⟩ := prefixFree_uint64 h
      obtain ⟨rfl, rfl⟩ := prefixFree_uint64 hburst
      exact ⟨rfl, rfl⟩
    | _ => simp [ActionConfig.compact] at h
  | .reparse k fields front, b, r, s, h => by
    cases b with
    | reparse k' fields' front' =>
      simp only [ActionConfig.compact, List.append_assoc, List.cons_append, List.nil_append,
        List.cons.injEq, true_and] at h
      obtain ⟨rfl, hfields⟩ := HeaderKind.prefixFree_ofMember h
      obtain ⟨rfl, hfront⟩ := prefixFree_ofList FieldId.prefixFree_compact hfields
      obtain ⟨rfl, rfl⟩ := prefixFree_sized hfront
      exact ⟨rfl, rfl⟩
    | _ => simp [ActionConfig.compact] at h
  | .select fields algo lists, b, r, s, h => by
    cases b with
    | select fields' algo' lists' =>
      simp only [ActionConfig.compact, List.append_assoc, List.cons_append, List.nil_append,
        List.cons.injEq, true_and] at h
      obtain ⟨rfl, halgo⟩ := prefixFree_ofList FieldId.prefixFree_compact h
      obtain ⟨rfl, hnumber⟩ := SelectAlgo.prefixFree_ofMember halgo
      obtain ⟨hlength, hlists⟩ := prefixFree_varint hnumber
      obtain ⟨rfl, rfl⟩ := listsCompact_append_inj lists lists' hlength hlists
      exact ⟨rfl, rfl⟩
    | _ => simp [ActionConfig.compact] at h
  | .swapOutput, b, r, s, h => by
    cases b with
    | swapOutput => exact ⟨rfl, (List.cons.inj h).2⟩
    | _ => simp [ActionConfig.compact] at h
  | .update u, b, r, s, h => by
    cases b with
    | update u' =>
      obtain ⟨rfl, rfl⟩ := UpdateConfig.prefixFree_compact (List.cons.inj h).2
      exact ⟨rfl, rfl⟩
    | _ => simp [ActionConfig.compact] at h
  | .flowCounter counter, b, r, s, h => by
    cases b with
    | flowCounter counter' =>
      obtain ⟨rfl, rfl⟩ := prefixFree_ofText (List.cons.inj h).2
      exact ⟨rfl, rfl⟩
    | _ => simp [ActionConfig.compact] at h
  | .custom kind args, b, r, s, h => by
    cases b with
    | custom kind' args' =>
      simp only [ActionConfig.compact, List.append_assoc, List.cons_append, List.nil_append,
        List.cons.injEq, true_and] at h
      obtain ⟨rfl, hargs⟩ := prefixFree_ofText h
      obtain ⟨hpairs, rfl⟩ := prefixFree_ofList (prefixFree_ofText.pair prefixFree_ofText) hargs
      obtain rfl := SortedMap.eq_of_pairs_eq hpairs
      exact ⟨rfl, rfl⟩
    | _ => simp [ActionConfig.compact] at h

/-- The flag stands behind the form of the action, which tells where it ends. -/
theorem Flagged.compact_append_inj : (a b : ListedConfig) → {r s : Bytes} →
    a.compact ++ r = b.compact ++ s → a = b ∧ r = s
  | ⟨action, onEvaluate⟩, ⟨action', onEvaluate'⟩, r, s, h => by
    simp only [Flagged.compact, List.append_assoc] at h
    obtain ⟨rfl, hflag⟩ := ActionConfig.compact_append_inj action action' h
    obtain ⟨rfl, rfl⟩ := prefixFree_ofBool hflag
    exact ⟨rfl, rfl⟩

/-- As many actions, one after the other. -/
theorem listedCompact_append_inj : (k l : List ListedConfig) → {r s : Bytes} →
    k.length = l.length → listedCompact k ++ r = listedCompact l ++ s → k = l ∧ r = s
  | [], l, r, s, hlength, h => by
    obtain rfl : l = [] := List.length_eq_zero_iff.1 hlength.symm
    exact ⟨rfl, h⟩
  | a :: k, [], r, s, hlength, h => by simp at hlength
  | a :: k, b :: l, r, s, hlength, h => by
    simp only [listedCompact, List.append_assoc] at h
    obtain ⟨rfl, hrest⟩ := Flagged.compact_append_inj a b h
    obtain ⟨rfl, rfl⟩ := listedCompact_append_inj k l (by simpa using hlength) hrest
    exact ⟨rfl, rfl⟩

/-- As many lists, one after the other. -/
theorem listsCompact_append_inj : (ks ls : List (List ListedConfig)) → {r s : Bytes} →
    ks.length = ls.length → listsCompact ks ++ r = listsCompact ls ++ s → ks = ls ∧ r = s
  | [], ls, r, s, hlength, h => by
    obtain rfl : ls = [] := List.length_eq_zero_iff.1 hlength.symm
    exact ⟨rfl, h⟩
  | k :: ks, [], r, s, hlength, h => by simp at hlength
  | k :: ks, l :: ls, r, s, hlength, h => by
    simp only [listsCompact, List.append_assoc] at h
    obtain ⟨hnumber, hlist⟩ := prefixFree_varint h
    obtain ⟨rfl, hrest⟩ := listedCompact_append_inj k l hnumber hlist
    obtain ⟨rfl, rfl⟩ := listsCompact_append_inj ks ls (by simpa using hlength) hrest
    exact ⟨rfl, rfl⟩

end

theorem Flagged.prefixFree_compact : PrefixFree Flagged.compact := fun {a b _ _} h =>
  compact_append_inj a b h

end Dataplane
