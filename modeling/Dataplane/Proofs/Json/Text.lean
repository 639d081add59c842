import Dataplane.Proofs.Json.Characters

/-!
# JSON values are read from their text

What the writer writes for a value is read as that value, as long as arrays and objects nest no
deeper than the reader takes. What nests deeper is spoilt, wherever it stands.

## The model

`Json.cut` is what is left of a value when only so much nesting is taken. A reader that meets the
characters of a value, and behind them something that ends a value, gives what is left of the value
and stops there (`readValue_chars`). It takes fuel for each character, so the fuel for a whole text
is enough for all parts of it. `Passes` says the same of the reader that keeps nothing, with the
brackets that it still has to close.
-/

namespace Dataplane.Json

/-! ### Plain values -/

mutual

/-- Is there a text for exactly this value? Only integers are written as they were. -/
def IsPlain : Json → Prop
  | real _ | spoilt => False
  | arr es => IsPlainElems es
  | obj ms => IsPlainMembers ms
  | _ => True

/-- Are all elements plain? -/
def IsPlainElems : List Json → Prop
  | [] => True
  | e :: es => IsPlain e ∧ IsPlainElems es

/-- Are the values of all members plain? -/
def IsPlainMembers : List (String × Json) → Prop
  | [] => True
  | (_, v) :: ms => IsPlain v ∧ IsPlainMembers ms

end

mutual

/-- How deep arrays and objects nest. -/
def nesting : Json → Nat
  | arr es => nestingElems es + 1
  | obj ms => nestingMembers ms + 1
  | _ => 0

/-- How deep the elements of an array nest. -/
def nestingElems : List Json → Nat
  | [] => 0
  | e :: es => max (nesting e) (nestingElems es)

/-- How deep the members of an object nest. -/
def nestingMembers : List (String × Json) → Nat
  | [] => 0
  | (_, v) :: ms => max (nesting v) (nestingMembers ms)

end

mutual

/-- The value with every array and object spoilt that nests more than `room` deep inside. -/
def cut : (room : Nat) → Json → Json
  | 0, arr _ | 0, obj _ => spoilt
  | room + 1, arr es => arr (cutElems room es)
  | room + 1, obj ms => obj (cutMembers room ms)
  | _, j => j

/-- The elements of an array, cut. -/
def cutElems (room : Nat) : List Json → List Json
  | [] => []
  | e :: es => cut room e :: cutElems room es

/-- The members of an object, cut. -/
def cutMembers (room : Nat) : List (String × Json) → List (String × Json)
  | [] => []
  | (name, v) :: ms => (name, cut room v) :: cutMembers room ms

end

/-! ### What follows a value -/

theorem EndsValue.comma (rest : List Char) : EndsValue (',' :: rest) := by
  rintro c more h
  cases h
  exact .inl rfl

theorem endsValue_elems (es : List Json) (rest : List Char) :
    EndsValue (charsElems es ++ ']' :: rest) := by
  cases es with
  | nil =>
    rintro c more h
    cases h
    exact .inr (.inl rfl)
  | cons e es => exact .comma _

theorem endsValue_members (ms : List (String × Json)) (rest : List Char) :
    EndsValue (charsMembers ms ++ '\x7d' :: rest) := by
  cases ms with
  | nil =>
    rintro c more h
    cases h
    exact .inr (.inr rfl)
  | cons m ms => exact .comma _

/-- A plain value starts with no blank and no closing bracket. -/
theorem chars_of_isPlain {j : Json} (h : j.IsPlain) :
    ∃ c more, chars j = c :: more ∧ c ∉ [' ', '\n', '\r', '\t', ']', '\x7d'] := by
  have hleaf (j : Json) (hj : j.IsLeaf) :
      ∃ c more, chars j = c :: more ∧ c ∉ [' ', '\n', '\r', '\t', ']', '\x7d'] := by
    obtain ⟨c, more, hcons, hc⟩ := chars_of_isLeaf hj
    refine ⟨c, more, hcons, fun hmem => hc.ne ?_ rfl⟩
    simp only [List.mem_cons] at hmem ⊢
    tauto
  cases j with
  | arr es => exact ⟨_, _, rfl, by decide⟩
  | obj ms => exact ⟨_, _, rfl, by decide⟩
  | real t | spoilt => exact h.elim
  | _ => exact hleaf _ trivial

theorem skipBlanks_chars {j : Json} (h : j.IsPlain) (rest : List Char) :
    skipBlanks (chars j ++ rest) = chars j ++ rest := by
  obtain ⟨c, more, hcons, hc⟩ := chars_of_isPlain h
  rw [hcons, List.cons_append]
  refine skipBlanks_cons ?_ _
  simp only [List.mem_cons, not_or] at hc
  tauto

/-! ### Passing over -/

/-- With fuel for `n` characters and one more, the reader passes over the characters `cs` up to
`rest`, and closes the brackets down to `closers'`. -/
def Passes (n : Nat) (next : Expected) (closers cs closers' rest : List Char) : Prop :=
  ∀ fuel, n < fuel → ∃ fuel', fuel ≤ fuel' + n ∧
    passOver fuel next closers cs = passOver fuel' .separator closers' rest

theorem Passes.trans {n m : Nat} {next : Expected}
    {closers closers' closers'' cs mid rest : List Char}
    (h : Passes n next closers cs closers' mid)
    (h' : Passes m .separator closers' mid closers'' rest) :
    Passes (n + m) next closers cs closers'' rest := by
  intro fuel hfuel
  obtain ⟨fuel', hle, heq⟩ := h fuel (by omega)
  obtain ⟨fuel'', hle', heq'⟩ := h' fuel' (by omega)
  exact ⟨fuel'', by omega, heq.trans heq'⟩

/-- One call that goes on with other characters. -/
theorem Passes.step {n : Nat} {next next' : Expected}
    {closers closers' closers'' cs cs' rest : List Char}
    (h : Passes n next' closers' cs' closers'' rest)
    (hstep : ∀ fuel, n < fuel →
      passOver (fuel + 1) next closers cs = passOver fuel next' closers' cs') :
    Passes (n + 1) next closers cs closers'' rest := by
  intro fuel hfuel
  obtain ⟨fuel, rfl⟩ := Nat.exists_eq_succ_of_ne_zero (Nat.ne_zero_of_lt hfuel)
  obtain ⟨fuel', hle, heq⟩ := h fuel (by omega)
  exact ⟨fuel', by omega, (hstep fuel (by omega)).trans heq⟩

theorem Passes.refl (closers rest : List Char) : Passes 0 .separator closers rest closers rest :=
  fun fuel _ => ⟨fuel, Nat.le_refl _, rfl⟩

theorem Passes.mono {n m : Nat} {next : Expected} {closers cs closers' rest : List Char}
    (h : Passes n next closers cs closers' rest) (hle : n ≤ m) :
    Passes m next closers cs closers' rest := by
  intro fuel hfuel
  obtain ⟨fuel', hle', heq⟩ := h fuel (by omega)
  exact ⟨fuel', by omega, heq⟩

theorem passes_leaf {j : Json} (hleaf : j.IsLeaf) (closers : List Char) {rest : List Char}
    (hrest : EndsValue rest) :
    Passes (chars j).length .value closers (chars j ++ rest) closers rest := by
  obtain ⟨c, more, hcons, hc⟩ := chars_of_isLeaf hleaf
  intro fuel hfuel
  obtain ⟨fuel, rfl⟩ := Nat.exists_eq_succ_of_ne_zero (Nat.ne_zero_of_lt hfuel)
  have hread := readLeaf_chars hleaf hrest (Nat.le_of_lt_succ hfuel)
  refine ⟨fuel, by rw [hcons, List.length_cons]; omega, ?_⟩
  rw [hcons, List.cons_append] at hread ⊢
  have hblank : skipBlanks (c :: (more ++ rest)) = c :: (more ++ rest) :=
    skipBlanks_cons (by refine ⟨?_, ?_, ?_, ?_⟩ <;> exact hc.ne (by decide)) _
  rw [Nat.succ_eq_add_one, passOver, hblank]
  split
  · rename_i h
    cases h
    exact absurd rfl (hc.ne (by decide))
  · rename_i h
    cases h
    exact absurd rfl (hc.ne (by decide))
  · rw [hread]

theorem passes_name {n : Nat} {closers cs closers' rest : List Char} (name : String)
    (h : Passes n .value closers cs closers' rest) :
    Passes ((quoted name).length + n) .name closers (quoted name ++ ':' :: cs) closers' rest := by
  have hpos : 0 < (quoted name).length := by simp [quoted]
  have hlater : Passes ((quoted name).length + n - 1) .value closers cs closers' rest :=
    h.mono (by omega)
  refine (hlater.step fun fuel hfuel => ?_).mono (by omega)
  rw [passOver, readName_quoted name cs (by omega)]

mutual

theorem passes_chars : (j : Json) → j.IsPlain → (closers : List Char) → {rest : List Char} →
    EndsValue rest → Passes (chars j).length .value closers (chars j ++ rest) closers rest
  | null, _, closers, _, hrest | bool _, _, closers, _, hrest | int _, _, closers, _, hrest
  | str _, _, closers, _, hrest => passes_leaf (by trivial) closers hrest
  | arr [], _, closers, rest, _ =>
    ((Passes.refl closers rest).step fun fuel _ => rfl).mono (Nat.le_succ 1)
  | arr (e :: es), h, closers, rest, _ => by
    have hinside := (passes_chars e h.1 (']' :: closers) (endsValue_elems es rest)).trans
      (passes_elems es h.2 closers rest)
    have hblank := skipBlanks_chars h.1 (charsElems es ++ ']' :: rest)
    obtain ⟨c, more, hcons, hc⟩ := chars_of_isPlain h.1
    simp only [chars, charsElems, List.tail_cons, List.cons_append, List.append_assoc,
      List.nil_append, List.length_cons, List.length_append, List.length_nil]
    refine (hinside.step fun fuel _ => ?_).mono (by omega)
    rw [passOver, skipBlanks_cons (by decide)]
    simp only [hblank]
    split
    · rename_i h
      rw [hcons] at h
      cases h
      exact absurd (by decide) hc
    · rfl
  | obj [], _, closers, rest, _ =>
    ((Passes.refl closers rest).step fun fuel _ => rfl).mono (Nat.le_succ 1)
  | obj ((name, v) :: ms), h, closers, rest, _ => by
    have hinside := passes_name name
      ((passes_chars v h.1 ('\x7d' :: closers) (endsValue_members ms rest)).trans
        (passes_members ms h.2 closers rest))
    simp only [chars, charsMembers, List.tail_cons, List.cons_append, List.append_assoc,
      List.nil_append, List.length_cons, List.length_append, List.length_nil]
    refine (hinside.step fun fuel _ => ?_).mono (by omega)
    rw [passOver, skipBlanks_cons (by decide)]
    rfl

theorem passes_elems : (es : List Json) → IsPlainElems es → (closers rest : List Char) →
    Passes ((charsElems es).length + 1) .separator (']' :: closers) (charsElems es ++ ']' :: rest)
      closers rest
  | [], _, closers, rest => (Passes.refl closers rest).step fun fuel _ => rfl
  | e :: es, h, closers, rest => by
    have hrest := (passes_chars e h.1 (']' :: closers) (endsValue_elems es rest)).trans
      (passes_elems es h.2 closers rest)
    simp only [charsElems, List.cons_append, List.append_assoc, List.length_cons,
      List.length_append]
    refine (hrest.step fun fuel _ => ?_).mono (by omega)
    rfl

theorem passes_members : (ms : List (String × Json)) → IsPlainMembers ms →
    (closers rest : List Char) → Passes ((charsMembers ms).length + 1) .separator
      ('\x7d' :: closers) (charsMembers ms ++ '\x7d' :: rest) closers rest
  | [], _, closers, rest => (Passes.refl closers rest).step fun fuel _ => rfl
  | (name, v) :: ms, h, closers, rest => by
    have hrest := passes_name name
      ((passes_chars v h.1 ('\x7d' :: closers) (endsValue_members ms rest)).trans
        (passes_members ms h.2 closers rest))
    simp only [charsMembers, List.cons_append, List.append_assoc, List.length_cons,
      List.length_append]
    refine (hrest.step fun fuel _ => ?_).mono (by omega)
    rfl

end

theorem passOver_chars {j : Json} (h : j.IsPlain) {rest : List Char} (hrest : EndsValue rest)
    {fuel : Nat} (hfuel : (chars j).length < fuel) :
    passOver fuel .value [] (chars j ++ rest) = some rest := by
  obtain ⟨fuel', hle, heq⟩ := passes_chars j h [] hrest fuel hfuel
  obtain ⟨fuel', rfl⟩ := Nat.exists_eq_succ_of_ne_zero (n := fuel') (by omega)
  rw [heq]
  rfl

/-! ### Reading -/

theorem readValue_leaf {j : Json} (hleaf : j.IsLeaf) (room : Nat) {rest : List Char}
    (hrest : EndsValue rest) {fuel : Nat} (hfuel : (chars j).length ≤ fuel) :
    readValue (fuel + 1) room (chars j ++ rest) = some (j, rest) := by
  have hread := readLeaf_chars hleaf hrest hfuel
  obtain ⟨c, more, hcons, hc⟩ := chars_of_isLeaf hleaf
  rw [hcons, List.cons_append] at hread ⊢
  have hblank : skipBlanks (c :: (more ++ rest)) = c :: (more ++ rest) :=
    skipBlanks_cons (by refine ⟨?_, ?_, ?_, ?_⟩ <;> exact hc.ne (by decide)) _
  have hbracket {d : Char} {more' : List Char}
      (hd : d ∈ [' ', '\n', '\r', '\t', '[', ']', '\x7b', '\x7d'])
      (h : skipBlanks (c :: (more ++ rest)) = d :: more') : False := by
    rw [hblank] at h
    exact hc.ne hd (List.cons.inj h).1
  rw [readValue, hblank, hread]
  · exact fun _ _ h _ => hbracket (by decide) h
  · exact fun _ _ h _ => hbracket (by decide) h
  · exact fun _ h _ => hbracket (by decide) h
  · exact fun _ h _ => hbracket (by decide) h

section Steps

variable {fuel room : Nat} {cs rest : List Char} {e v : Json} {es : List Json}
  {done : List Json} {members : List (String × Json)} {name : String}

theorem readValue_deep_arr (h : passOver fuel .value [] ('[' :: cs) = some rest) :
    readValue (fuel + 1) 0 ('[' :: cs) = some (.spoilt, rest) := by
  have hblank : skipBlanks ('[' :: cs) = '[' :: cs := skipBlanks_cons (by decide) cs
  simp [readValue, hblank, h]

theorem readValue_deep_obj (h : passOver fuel .value [] ('\x7b' :: cs) = some rest) :
    readValue (fuel + 1) 0 ('\x7b' :: cs) = some (.spoilt, rest) := by
  have hblank : skipBlanks ('\x7b' :: cs) = '\x7b' :: cs := skipBlanks_cons (by decide) cs
  simp [readValue, hblank, h]

theorem readValue_arr (h : e.IsPlain) :
    readValue (fuel + 1) (room + 1) ('[' :: (chars e ++ cs)) =
      readElems fuel room [] (chars e ++ cs) := by
  have hopen : skipBlanks ('[' :: (chars e ++ cs)) = '[' :: (chars e ++ cs) :=
    skipBlanks_cons (by decide) _
  have hblank := skipBlanks_chars h cs
  obtain ⟨c, more, hcons, hc⟩ := chars_of_isPlain h
  simp only [readValue, hopen, hblank]
  rw [hcons, List.cons_append]
  split
  · rename_i hclose
    cases hclose
    exact absurd (by decide) hc
  · rfl

theorem readValue_obj :
    readValue (fuel + 1) (room + 1) ('\x7b' :: (quoted name ++ cs)) =
      readMembers fuel room (some []) (quoted name ++ cs) := by
  have hopen : skipBlanks ('\x7b' :: (quoted name ++ cs)) = '\x7b' :: (quoted name ++ cs) :=
    skipBlanks_cons (by decide) _
  have hblank : skipBlanks (quoted name ++ cs) = quoted name ++ cs := skipBlanks_cons (by decide) _
  simp only [readValue, hopen, hblank]
  rfl

theorem readElems_comma (h : readValue fuel room cs = some (v, ',' :: rest)) :
    readElems (fuel + 1) room done cs = readElems fuel room (v :: done) rest := by
  rw [readElems, h]
  rfl

theorem readElems_close (h : readValue fuel room cs = some (v, ']' :: rest)) :
    readElems (fuel + 1) room done cs = some (arr (v :: done).reverse, rest) := by
  rw [readElems, h]
  rfl

theorem readMembers_comma (hname : (quoted name).length ≤ fuel)
    (h : readValue fuel room cs = some (v, ',' :: rest)) :
    readMembers (fuel + 1) room (some members) (quoted name ++ ':' :: cs) =
      readMembers fuel room (some ((name, v) :: members)) rest := by
  rw [readMembers, readName_quoted name cs hname]
  simp only [h]
  rfl

theorem readMembers_close (hname : (quoted name).length ≤ fuel)
    (h : readValue fuel room cs = some (v, '\x7d' :: rest)) :
    readMembers (fuel + 1) room (some members) (quoted name ++ ':' :: cs) =
      some (obj ((name, v) :: members).reverse, rest) := by
  rw [readMembers, readName_quoted name cs hname]
  simp only [h]
  rfl

theorem length_chars_pos (h : e.IsPlain) : 0 < (chars e).length := by
  obtain ⟨c, more, hcons, -⟩ := chars_of_isPlain h
  rw [hcons]
  exact Nat.succ_pos _

end Steps

mutual

/-- What is read where the characters of a value stand. -/
theorem readValue_chars : (j : Json) → j.IsPlain → (room : Nat) → {rest : List Char} →
    EndsValue rest → (fuel : Nat) → 2 * (chars j).length ≤ fuel →
    readValue fuel room (chars j ++ rest) = some (cut room j, rest)
  | j, h, _, _, _, 0, hfuel => by
    have hpos := length_chars_pos h
    omega
  | null, _, room, _, hrest, fuel + 1, hfuel | bool _, _, room, _, hrest, fuel + 1, hfuel
  | int _, _, room, _, hrest, fuel + 1, hfuel | str _, _, room, _, hrest, fuel + 1, hfuel => by
    rw [readValue_leaf (by trivial) room hrest (by omega), cut] <;> exact nofun
  | arr es, h, 0, rest, hrest, fuel + 1, hfuel =>
    have hlen : (chars (arr es)).length < fuel := by simp [chars] at hfuel ⊢; omega
    readValue_deep_arr (passOver_chars h hrest hlen)
  | obj ms, h, 0, rest, hrest, fuel + 1, hfuel =>
    have hlen : (chars (obj ms)).length < fuel := by simp [chars] at hfuel ⊢; omega
    readValue_deep_obj (passOver_chars h hrest hlen)
  | arr [], _, room + 1, rest, _, fuel + 1, hfuel => rfl
  | arr (e :: es), h, room + 1, rest, _, fuel + 1, hfuel => by
    have hread := readElems_chars (e :: es) (by simp) h room rest [] fuel
      (by simp [chars] at hfuel; omega)
    simp only [chars, charsElems, List.tail_cons, List.cons_append, List.append_assoc] at hread ⊢
    rw [readValue_arr h.1]
    exact hread
  | obj [], _, room + 1, rest, _, fuel + 1, hfuel => rfl
  | obj ((name, v) :: ms), h, room + 1, rest, _, fuel + 1, hfuel => by
    have hread := readMembers_chars ((name, v) :: ms) (by simp) h room rest [] fuel
      (by simp [chars] at hfuel; omega)
    simp only [chars, charsMembers, List.tail_cons, List.cons_append, List.append_assoc]
      at hread ⊢
    rw [readValue_obj]
    exact hread

/-- What is read where the characters of elements stand, from the first one on. -/
theorem readElems_chars : (es : List Json) → es ≠ [] → IsPlainElems es → (room : Nat) →
    (rest : List Char) → (done : List Json) → (fuel : Nat) →
    2 * (charsElems es).length ≤ fuel + 1 →
    readElems fuel room done ((charsElems es).tail ++ ']' :: rest) =
      some (arr (done.reverse ++ cutElems room es), rest)
  | e :: es, _, h, _, _, _, 0, hfuel => by
    simp [charsElems] at hfuel
    omega
  | [e], _, h, room, rest, done, fuel + 1, hfuel => by
    have hread := readValue_chars e h.1 room (endsValue_elems [] rest) fuel
      (by simp [charsElems] at hfuel; omega)
    simp only [charsElems, List.tail_cons, List.append_nil, List.nil_append] at hread ⊢
    rw [readElems_close hread, List.reverse_cons]
    rfl
  | e :: e' :: es, _, h, room, rest, done, fuel + 1, hfuel => by
    have hread := readValue_chars e h.1 room (endsValue_elems (e' :: es) rest) fuel
      (by simp [charsElems] at hfuel; omega)
    have htail := readElems_chars (e' :: es) (by simp) h.2 room rest (cut room e :: done)
      fuel (by simp [charsElems] at hfuel ⊢; omega)
    simp only [charsElems, List.tail_cons, List.cons_append, List.append_assoc] at hread htail ⊢
    rw [readElems_comma hread, htail, List.reverse_cons, List.append_assoc]
    rfl

/-- What is read where the characters of members stand, from the first one on. -/
theorem readMembers_chars : (ms : List (String × Json)) → ms ≠ [] → IsPlainMembers ms →
    (room : Nat) → (rest : List Char) → (done : List (String × Json)) → (fuel : Nat) →
    2 * (charsMembers ms).length ≤ fuel + 1 →
    readMembers fuel room (some done) ((charsMembers ms).tail ++ '\x7d' :: rest) =
      some (obj (done.reverse ++ cutMembers room ms), rest)
  | (name, v) :: ms, _, h, _, _, _, 0, hfuel => by
    simp [charsMembers] at hfuel
    omega
  | [(name, v)], _, h, room, rest, done, fuel + 1, hfuel => by
    have hread := readValue_chars v h.1 room (endsValue_members [] rest) fuel
      (by simp [charsMembers] at hfuel; omega)
    have hname : (quoted name).length ≤ fuel := by simp [charsMembers] at hfuel; omega
    simp only [charsMembers, List.tail_cons, List.append_nil, List.nil_append, List.cons_append,
      List.append_assoc] at hread ⊢
    rw [readMembers_close hname hread, List.reverse_cons]
    rfl
  | (name, v) :: m :: ms, _, h, room, rest, done, fuel + 1, hfuel => by
    obtain ⟨name', v'⟩ := m
    have hread := readValue_chars v h.1 room (endsValue_members ((name', v') :: ms) rest)
      fuel (by simp [charsMembers] at hfuel; omega)
    have htail := readMembers_chars ((name', v') :: ms) (by simp) h.2 room rest
      ((name, cut room v) :: done) fuel (by simp [charsMembers] at hfuel ⊢; omega)
    have hname : (quoted name).length ≤ fuel := by simp [charsMembers] at hfuel; omega
    simp only [charsMembers, List.tail_cons, List.cons_append, List.append_assoc]
      at hread htail ⊢
    rw [readMembers_comma hname hread, htail, List.reverse_cons, List.append_assoc]
    rfl

end

/-- A plain value is read from its text, cut where it nests too deep. -/
theorem ofText?_text {j : Json} (h : j.IsPlain) : ofText? j.text = some (cut maxNesting j) := by
  have hend : EndsValue [] := fun _ _ h => nomatch h
  have hread := readValue_chars j h maxNesting hend (2 * (chars j).length + 2) (by omega)
  rw [List.append_nil] at hread
  rw [ofText?, toList_text, hread]
  rfl

mutual

/-- A value that nests no deeper is not cut. -/
theorem cut_eq_self : (j : Json) → {room : Nat} → nesting j ≤ room → cut room j = j
  | null, _, _ | bool _, _, _ | int _, _, _ | real _, _, _ | str _, _, _ | spoilt, _, _ => by
    rw [cut] <;> exact nofun
  | arr _, 0, h | obj _, 0, h => by simp [nesting] at h
  | arr es, room + 1, h => by
    rw [cut, cutElems_eq_self es (Nat.le_of_succ_le_succ h)]
  | obj ms, room + 1, h => by
    rw [cut, cutMembers_eq_self ms (Nat.le_of_succ_le_succ h)]

theorem cutElems_eq_self : (es : List Json) → {room : Nat} → nestingElems es ≤ room →
    cutElems room es = es
  | [], _, _ => rfl
  | e :: es, room, h => by
    obtain ⟨he, hes⟩ := Nat.max_le.mp h
    rw [cutElems, cut_eq_self e he, cutElems_eq_self es hes]

theorem cutMembers_eq_self : (ms : List (String × Json)) → {room : Nat} →
    nestingMembers ms ≤ room → cutMembers room ms = ms
  | [], _, _ => rfl
  | (name, v) :: ms, room, h => by
    obtain ⟨hv, hms⟩ := Nat.max_le.mp h
    rw [cutMembers, cut_eq_self v hv, cutMembers_eq_self ms hms]

end

end Dataplane.Json
