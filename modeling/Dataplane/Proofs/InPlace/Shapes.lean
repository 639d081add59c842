import Dataplane.Proofs.Headers.Wire
import Dataplane.Proofs.InPlace.Fields

/-!
# Headers overwritten, extended and shortened in place

Overwriting raw bytes reads a header anew from its changed wire form. A chain of IP headers does so
header by header, on a copy; it takes the copy over and *then* compares the number of bytes used up
with the number given. A mismatch found there would come too late. It is never found: the bytes are
the chain's own, and each header is read from as many bytes as it had (`IpChain.reloadCopy_eq`).
-/

namespace Dataplane

open InPlace

variable {ε σ τ α : Type}

/-! ## Raw bytes -/

/-- The value becomes what a function makes of it, if it makes anything of it. -/
def InPlace.replace (f : σ → Option σ) : InPlace Unit σ Unit := do
  match f (← current) with
  | some t => modify fun _ => t
  | none => throw ()

/-- An operation that may give nothing, as a function to be done at once. -/
def InPlace.orNothing (f : σ → Option σ) : σ → Except Unit (σ × Unit) :=
  orNone fun s => (f s).map (·, ())

theorem InPlace.replace_eq (f : σ → Option σ) : replace f = atOnce (orNothing f) := by
  funext s
  rw [replace, bind_apply, current_apply, atOnce_apply, orNothing, orNone]
  dsimp only
  cases f s <;> rfl

/-- Overwrites a copy of some headers, one after the other, with the bytes from a place on; gives
the copy and the place reached. -/
def IpChain.reloadCopy : List IpHeader → (start : Nat) → Bytes → Option (List IpHeader × Nat)
  | [], start, _ => some ([], start)
  | h :: hs, start, b => do
    let part ← b.slice? start h.wireLen
    let h ← h.reload? part
    let (hs, stop) ← reloadCopy hs (start + part.length) b
    return (h :: hs, stop)

/-- Overwrites the headers of a chain. The lengths are compared last. -/
def IpChain.reloadInPlace (b : Bytes) : InPlace Unit IpChain Unit := do
  match reloadCopy (← current).headers 0 b with
  | some (hs, stop) => do
    modify fun c => { c with headers := hs }
    refuseIf (stop ≠ b.length) ()
  | none => throw ()

/-- Overwrites a header with the bytes `b`. -/
def Header.reloadInPlace (b : Bytes) : InPlace Unit Header Unit
  | .ip c => into .ip (IpChain.reloadInPlace b c)
  | h => replace (·.reload? b) h

/-- Overwrites the bytes from `start` on. -/
def Header.writeInPlace (start : Nat) (val : Bytes) : InPlace Unit Header Unit := do
  match (← current).emit.overwrite? start val with
  | some b => reloadInPlace b
  | none => throw ()

theorem Bytes.length_of_overwrite {b b' val : Bytes} {start : Nat}
    (h : b.overwrite? start val = some b') : b'.length = b.length := by
  unfold overwrite? at h
  split at h
  case isFalse => cases h
  case isTrue hle =>
    obtain rfl := Option.some.inj h
    simp only [List.length_append, List.length_take, List.length_drop]
    omega

/-- From bytes of the length of the headers, every header gets as many as it had, and all are used
up. -/
theorem IpChain.reloadCopy_eq (hs : List IpHeader) (start : Nat) (b : Bytes)
    (hlen : start + hs.foldr (·.wireLen + ·) 0 = b.length) :
    reloadCopy hs start b = (reloadHeaders? hs (b.drop start)).map (·, b.length) := by
  induction hs generalizing start with
  | nil =>
    have hdone : b.drop start = [] := List.drop_eq_nil_iff.mpr (Nat.le_of_eq hlen.symm)
    rw [reloadCopy, reloadHeaders?, if_pos hdone, ← hlen]
    rfl
  | cons h hs ih =>
    rw [List.foldr_cons] at hlen
    have hfits : start + h.wireLen ≤ b.length := by omega
    have hpart : b.slice? start h.wireLen = some ((b.drop start).take h.wireLen) := if_pos hfits
    have hpartLen : ((b.drop start).take h.wireLen).length = h.wireLen := by
      rw [List.length_take, List.length_drop]
      omega
    have hrest := ih (start + h.wireLen) (by omega)
    rw [reloadCopy, reloadHeaders?, hpart, List.drop_drop]
    simp only [Option.bind_eq_bind, Option.bind_some, hpartLen, hrest]
    cases h.reload? ((b.drop start).take h.wireLen) with
    | none => rfl
    | some h' => cases reloadHeaders? hs (b.drop (start + h.wireLen)) <;> rfl

/-- On bytes of its own length a chain is overwritten at once. -/
theorem IpChain.reloadInPlace_eq {c : IpChain} {b : Bytes} (hlen : b.length = c.wireLen) :
    reloadInPlace b c = atOnce (orNothing (·.reload? b)) c := by
  have hcopy : reloadCopy c.headers 0 b = (reloadHeaders? c.headers b).map (·, b.length) :=
    reloadCopy_eq c.headers 0 b (by rw [hlen, Nat.zero_add, wireLen])
  rw [reloadInPlace, bind_apply, current_apply, atOnce_apply, orNothing, orNone, reload?]
  dsimp only
  rw [hcopy]
  cases reloadHeaders? c.headers b with
  | none => rfl
  | some hs =>
    dsimp only [Option.map_some]
    rw [bind_apply, modify_apply]
    dsimp only
    rw [refuseIf_of_not (by simp)]

theorem Header.reloadInPlace_eq {h : Header} {b : Bytes} (hlen : b.length = h.wireLen) :
    reloadInPlace b h = atOnce (orNothing (·.reload? b)) h := by
  cases h with
  | ip c =>
    rw [reloadInPlace, IpChain.reloadInPlace_eq hlen]
    apply into_atOnce
    rw [orNothing, orNothing, orNone, orNone, reload?]
    cases c.reload? b <;> rfl
  | _ => exact congrFun (replace_eq fun h : Header => h.reload? b) _

/-- **Overwriting raw bytes in place**: bytes that do not have the header's shape leave it alone,
also if only a header at the end of a chain notices. -/
theorem Header.write_inPlace (start : Nat) (val : Bytes) :
    writeInPlace start val = atOnce (orNothing (·.writeRaw? start val)) := by
  funext h
  rw [writeInPlace, bind_apply, current_apply, atOnce_apply, orNothing, orNone, writeRaw?]
  dsimp only
  cases hb : h.emit.overwrite? start val with
  | none => rfl
  | some b =>
    have hlen : b.length = h.wireLen := by rw [Bytes.length_of_overwrite hb, h.length_emit]
    dsimp only [Option.bind_eq_bind, Option.bind_some]
    rw [reloadInPlace_eq hlen]
    rfl

/-! ## Extending and shortening -/

variable (kind : HeaderKind)

/-- Tags an untagged Ethernet header. -/
def Ethernet.pushInPlace : InPlace HeaderError Ethernet Unit := do
  refuseIf ((← current).tags ≠ [] ∨ kind = .eth) (.doubleEncap kind)
  match freshTags? kind with
  | some tags => modify fun e => { e with tags }
  | none => throw (.doubleEncap kind)

/-- Puts a fresh header in front of a chain. -/
def IpChain.pushInPlace : InPlace HeaderError IpChain Unit := do
  let h ← fromExcept ((← current).freshOuter kind)
  modify fun c => { c with headers := h :: c.headers }

/-- Covers the outermost entry of a label stack. -/
def LabelStack.pushInPlace : InPlace HeaderError LabelStack Unit := do
  refuseIf (kind ≠ .mpls) (.doubleEncap kind)
  let ttl := match (← current).entries.head? with
    | some e => e.bits wordSlot ttlBits
    | none => defaultTtl
  modify fun s => ⟨entryWithTtl ttl :: s.entries⟩

/-- Adds a header of a kind to a stack. -/
def Header.pushInPlace : InPlace HeaderError Header Unit
  | .ethernet h => into .ethernet (Ethernet.pushInPlace kind h)
  | .ip c => into .ip (IpChain.pushInPlace kind c)
  | .mpls s => into .mpls (LabelStack.pushInPlace kind s)
  | h => .error (.doubleEncap kind) h

/-- Removes tags, or says that the whole header is to go. -/
def Ethernet.popInPlace : InPlace HeaderError Ethernet Bool := do
  let e ← current
  match kind, e.tags with
  | .eth, _ => return true
  | .ethVlan, _ :: tags => do
    modify fun e => { e with tags }
    return false
  | .ethStacked, [_, _] => do
    modify fun e => { e with tags := [] }
    return false
  | _, _ => throw (.wrongOutermost kind e.kind)

/-- Removes the outermost header of a chain; says whether nothing is left. -/
def IpChain.popInPlace : InPlace HeaderError IpChain Bool := do
  fromExcept ((← current).checkOutermost kind)
  modify fun c => { c with headers := c.headers.tail }
  return (← current).headers.isEmpty

/-- Removes the outermost entry of a label stack; says whether nothing is left. -/
def LabelStack.popInPlace : InPlace HeaderError LabelStack Bool := do
  refuseIf (kind ≠ .mpls) (.wrongOutermost kind .mpls)
  modify fun s => ⟨s.entries.tail⟩
  return (← current).entries.isEmpty

/-- Removes the outermost header of a stack; says whether nothing is left. -/
def Header.popInPlace : InPlace HeaderError Header Bool
  | .ethernet h => into .ethernet (Ethernet.popInPlace kind h)
  | .ip c => into .ip (IpChain.popInPlace kind c)
  | .mpls s => into .mpls (LabelStack.popInPlace kind s)
  | h => fromExcept ((h.popSole kind).map (·.2)) h

/-- An operation without a result of its own, as a function to be done at once. -/
def InPlace.silent (f : σ → Except ε σ) (s : σ) : Except ε (σ × Unit) := (f s).map (·, ())

theorem Ethernet.pushInPlace_eq : pushInPlace kind = atOnce (silent (·.push kind)) := by
  funext e
  rw [pushInPlace, bind_apply, current_apply, atOnce_apply, silent, push]
  dsimp only
  by_cases hrefused : e.tags ≠ [] ∨ kind = .eth
  · rw [bind_apply, refuseIf_of hrefused, if_pos hrefused]
    rfl
  · rw [bind_apply, refuseIf_of_not hrefused, if_neg hrefused]
    cases freshTags? kind <;> rfl

theorem IpChain.pushInPlace_eq : pushInPlace kind = atOnce (silent (·.push kind)) := by
  funext c
  rw [pushInPlace, bind_apply, current_apply, atOnce_apply, silent, push]
  dsimp only
  rw [bind_apply]
  cases c.freshOuter kind <;> rfl

theorem LabelStack.pushInPlace_eq : pushInPlace kind = atOnce (silent (·.push kind)) := by
  funext s
  rw [pushInPlace, bind_apply, atOnce_apply, silent, push]
  by_cases hkind : kind = .mpls
  · rw [refuseIf_of_not (not_not.mpr hkind), if_pos hkind]
    rfl
  · rw [refuseIf_of hkind, if_neg hkind]
    rfl

/-- **Adding a header in place**: a refused addition leaves the stack alone. -/
theorem Header.push_inPlace : pushInPlace kind = atOnce (silent (·.push kind)) := by
  funext h
  cases h with
  | ethernet h =>
    rw [pushInPlace, Ethernet.pushInPlace_eq]
    apply into_atOnce
    rw [silent, silent, push]
    cases h.push kind <;> rfl
  | ip c =>
    rw [pushInPlace, IpChain.pushInPlace_eq]
    apply into_atOnce
    rw [silent, silent, push]
    cases c.push kind <;> rfl
  | mpls s =>
    rw [pushInPlace, LabelStack.pushInPlace_eq]
    apply into_atOnce
    rw [silent, silent, push]
    cases s.push kind <;> rfl
  | _ => rfl

theorem Ethernet.popInPlace_eq : popInPlace kind = atOnce (·.pop kind) := by
  funext e
  rw [popInPlace, bind_apply, current_apply, atOnce_apply]
  obtain ⟨addrs, tags, typeWord⟩ := e
  cases kind with
  | ethVlan => cases tags <;> rfl
  | ethStacked =>
    -- exactly two tags
    match tags with
    | [] | [_] | [_, _] | _ :: _ :: _ :: _ => rfl
  | _ => rfl

theorem IpChain.popInPlace_eq : popInPlace kind = atOnce (·.pop kind) := by
  funext c
  rw [popInPlace, bind_apply, current_apply, atOnce_apply, pop]
  dsimp only
  rw [bind_apply]
  cases c.checkOutermost kind <;> rfl

theorem LabelStack.popInPlace_eq : popInPlace kind = atOnce (·.pop kind) := by
  funext s
  rw [popInPlace, bind_apply, atOnce_apply, pop]
  by_cases hkind : kind = .mpls
  · rw [refuseIf_of_not (not_not.mpr hkind), if_pos hkind]
    rfl
  · rw [refuseIf_of hkind, if_neg hkind]

/-- A sole header is never changed, only given up. -/
theorem Header.popSole_eq (h : Header) :
    fromExcept ((h.popSole kind).map (·.2)) h = atOnce (·.popSole kind) h := by
  rw [atOnce_apply, popSole]
  by_cases hfound : h.stack.headD .none = kind
  · simp only [if_pos hfound]
    rfl
  · simp only [if_neg hfound]
    rfl

/-- **Removing a header in place**: a refused removal leaves the stack alone. -/
theorem Header.pop_inPlace : popInPlace kind = atOnce (·.pop kind) := by
  funext h
  cases h with
  | ethernet h =>
    rw [popInPlace, Ethernet.popInPlace_eq]
    exact into_atOnce _ _ _ _ rfl
  | ip c =>
    rw [popInPlace, IpChain.popInPlace_eq]
    exact into_atOnce _ _ _ _ rfl
  | mpls s =>
    rw [popInPlace, LabelStack.popInPlace_eq]
    exact into_atOnce _ _ _ _ rfl
  | _ => exact popSole_eq kind _

end Dataplane
