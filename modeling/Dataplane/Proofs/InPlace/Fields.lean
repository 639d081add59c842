import Dataplane.Headers
import Dataplane.Proofs.InPlace.Calls

/-!
# Fields changed in place

The operations on a header give the changed header or the cause of a refusal. A forwarding engine
does not copy its headers around: it changes them where they are, so the call may be refused when
part of the change was made.

## The model

For the update of a field of each sort of header there is a call here that goes through the steps of
the change in their order: GRE sets the flag of a word before it puts the word in, a chain learns
only from one of its headers that there is no such field, and IPv4 stores a decremented time to live
before it stores the checksum. The main statement, `Header.update_inPlace`, says that each of them is
the operation done at once.
-/

namespace Dataplane

open InPlace

variable (num : FieldNum) (inst : Instance) (op : FieldOp) (arg : Bytes)

/-! ## Updating a field -/

/-- Changes a slot of the block of a header that holds each of its fields once. -/
def InPlace.updateSole {σ : Type} {n : Nat} (change : (Block n → Block n) → σ → σ)
    (slot? : FieldNum → Option (Slot n)) : InPlace FieldError σ Bool := do
  refuseIf (¬inst.isSole) (.noSuchField (.field num inst))
  match slot? num with
  | some s => do
    modify (change (·.update s op arg))
    return true
  | none => throw (.noSuchField (.field num inst))

/-- Changes a field of metadata. -/
def Metadata.updateInPlace : InPlace FieldError Metadata Bool := do
  refuseIf (op ≠ .set ∧ (scratchSlot? num inst).isNone) (.badOp (.field num inst) op)
  match slot? num inst with
  | some s => do
    modify fun m => ⟨m.block.update s op arg⟩
    return true
  | none => throw (.noSuchField (.field num inst))

/-- Changes a field of an Ethernet header. -/
def Ethernet.updateInPlace : InPlace FieldError Ethernet Bool :=
  match tagField? num with
  | some (r, width) => do
    match inst.resolve (← current).tags.length with
    | some i => do
      let change (tag : Block 4) := tag.updateBits tagControlSlot r width op arg
      modify fun e => { e with tags := e.tags.modify i change }
      return true
    | none => throw (.noSuchField (.field num inst))
  | none => do
    refuseIf (¬inst.isSole) (.noSuchField (.field num inst))
    match num with
    | .etherMacDst => modify fun e => { e with addrs := e.addrs.update dstSlot op arg }
    | .etherMacSrc => modify fun e => { e with addrs := e.addrs.update srcSlot op arg }
    | .etherType => modify fun e => { e with typeWord := e.typeWord.update typeSlot op arg }
    | _ => throw (.noSuchField (.field num inst))
    return true

/-- Changes a field of an IPv4 header. A decrement of the time to live takes the old word out of
the checksum, stores the time to live, and adds the new word. -/
def Ipv4.updateInPlace : InPlace Unit Ipv4 Bool :=
  if num = .ipHop ∧ op = .dec then do
    let old ← current
    let sum := (Checksum.ofHeader (old.base.byte 10) (old.base.byte 11)).sub
      (old.base.get ttlWordSlot)
    modify fun h => { h with base := h.base.update ttlSlot .dec arg }
    modify fun h =>
      { h with base := h.base.set checksumSlot (sum.add (h.base.get ttlWordSlot)).header }
    return false
  else if num = .ipVersion then do
    modify fun h => { h with base := h.base.updateBits firstSlot versionBits 1 op arg }
    return true
  else match slot? num with
    | some s => do
      modify fun h => { h with base := h.base.update s op arg }
      return true
    | none => throw ()

/-- Changes a field of an IPv6 header. -/
def Ipv6.updateInPlace : InPlace Unit Ipv6 Bool :=
  match bitField? num with
  | some (r, width) => do
    modify fun h => ⟨h.base.updateBits wordSlot r width op arg⟩
    return true
  | none =>
    match slot? num with
    | some s => do
      modify fun h => ⟨h.base.update s op arg⟩
      return num ≠ .ipHop
    | none => throw ()

/-- Changes a field of a GRE header. The flag of a word is set before the word is put in. -/
def Gre.updateInPlace : InPlace Unit Gre Bool := do
  match num with
  | .greProtocol => modify fun h => { h with base := h.base.update typeSlot op arg }
  | .greKey =>
    modify fun h => { h with base := h.setFlag keyFlag }
    modify fun h => { h with key := updateWord h.key op arg }
  | .greSeq =>
    modify fun h => { h with base := h.setFlag seqFlag }
    modify fun h => { h with seq := updateWord h.seq op arg }
  | _ => throw ()
  return true

/-- Changes a field of a header of a chain. -/
def IpHeader.updateInPlace : InPlace Unit IpHeader Bool
  | .v4 h => into .v4 (Ipv4.updateInPlace num op arg h)
  | .v6 h => into .v6 (Ipv6.updateInPlace num op arg h)
  | .gre h => into .gre (Gre.updateInPlace num op arg h)

/-- Runs a call on one header of a chain. -/
def IpChain.atPlace (i : Nat) (m : InPlace Unit IpHeader Bool) : InPlace Unit IpChain Bool :=
  fun c =>
    match c.headers[i]? with
    | some h => into (fun h => { c with headers := c.headers.set i h }) (m h)
    | none => .error () c

/-- Changes a field of a chain. The header with the place may turn out not to have the field. -/
def IpChain.updateInPlace : InPlace FieldError IpChain Bool := do
  match (← current).place? num inst with
  | some i =>
    mapError (fun _ => .noSuchField (.field num inst)) (atPlace i (IpHeader.updateInPlace num op arg))
  | none => throw (.noSuchField (.field num inst))

/-- Changes a field of a label stack. -/
def LabelStack.updateInPlace : InPlace FieldError LabelStack Bool :=
  match field? num with
  | some (r, width) => do
    match inst.resolve (← current).depth with
    | some i => do
      modify fun s => ⟨s.entries.modify i (·.updateBits wordSlot r width op arg)⟩
      return true
    | none => throw (.noSuchField (.field num inst))
  | none => throw (.noSuchField (.field num inst))

/-- Changes a field of an ICMP header for IPv6. -/
def Icmp6.updateInPlace : InPlace FieldError Icmp6 Bool := do
  refuseIf (¬inst.isSole) (.noSuchField (.field num inst))
  match Icmp.slot? num, linkOption? num with
  | some s, _ => modify fun h => { h with base := h.base.update s op arg }
  | none, some kind =>
    match (← current).linkPlace? kind with
    | some i => do
      let change (o : NdOption) : NdOption := { o with data := updateFront 6 o.data op arg }
      modify fun h => { h with options := h.options.modify i change }
    | none => throw (.noSuchField (.field num inst))
  | none, none => do
    let h ← current
    if num = .ndTarget ∧ hasTarget h.type ∧ 16 ≤ h.body.length then
      modify fun h => { h with body := updateFront 16 h.body op arg }
    else throw (.noSuchField (.field num inst))
  return true

/-- Changes a field of a header; says whether derived fields may now be stale. -/
def Header.updateInPlace : InPlace FieldError Header Bool
  | .metadata h => into .metadata (Metadata.updateInPlace num inst op arg h)
  | .ethernet h => into .ethernet (Ethernet.updateInPlace num inst op arg h)
  | .ip c => into .ip (IpChain.updateInPlace num inst op arg c)
  | .arp h => into .arp (updateSole num inst op arg (fun f h => ⟨f h.base⟩) Arp.slot? h)
  | .mpls s => into .mpls (LabelStack.updateInPlace num inst op arg s)
  | .tcp h =>
    into .tcp (updateSole num inst op arg (fun f h => { h with base := f h.base }) Tcp.slot? h)
  | .udp h =>
    into .udp (updateSole num inst op arg (fun f h => { h with base := f h.base }) Udp.slot? h)
  | .icmp4 h => into .icmp4 (updateSole num inst op arg (fun f h => ⟨f h.base⟩) Icmp.slot? h)
  | .icmp6 h => into .icmp6 (Icmp6.updateInPlace num inst op arg h)
  | .payload b => .error (.noSuchField (.field num inst)) (.payload b)

/-! ### Each is the operation done at once -/

theorem InPlace.updateSole_eq {σ : Type} {n : Nat} (change : (Block n → Block n) → σ → σ)
    (slot? : FieldNum → Option (Slot n)) :
    updateSole num inst op arg change slot? = atOnce fun h =>
      (Header.sole num inst ((slot? num).map fun s => change (·.update s op arg) h)).map
        fun h => (h, true) := by
  funext h
  rw [updateSole, bind_apply, atOnce_apply, Header.sole]
  by_cases hsole : inst.isSole
  · rw [refuseIf_of_not (by simpa using hsole), if_pos hsole]
    cases slot? num <;> rfl
  · rw [refuseIf_of (by simpa using hsole), if_neg hsole]
    rfl

theorem Metadata.updateInPlace_eq : updateInPlace num inst op arg = atOnce fun m =>
    (m.update num inst op arg).map fun m => (m, true) := by
  funext m
  rw [updateInPlace, bind_apply, atOnce_apply, update]
  by_cases hop : op ≠ .set ∧ (scratchSlot? num inst).isNone
  · rw [refuseIf_of hop, if_pos hop]
    rfl
  · rw [refuseIf_of_not hop, if_neg hop]
    cases slot? num inst <;> rfl

theorem Ethernet.updateInPlace_eq : updateInPlace num inst op arg = atOnce fun e =>
    (e.update num inst op arg).map fun e => (e, true) := by
  funext e
  unfold updateInPlace atOnce update
  cases tagField? num with
  | some field =>
    dsimp only [bind_apply, current_apply]
    cases inst.resolve e.tags.length <;> rfl
  | none =>
    dsimp only [bind_apply]
    by_cases hsole : inst.isSole
    · rw [refuseIf_of_not (by simpa using hsole), if_pos hsole]
      cases num <;> rfl
    · rw [refuseIf_of (by simpa using hsole), if_neg hsole]
      rfl

/-- An operation that may find no field, as a function to be done at once. -/
def InPlace.orNone {σ α : Type} (f : σ → Option (σ × α)) (s : σ) : Except Unit (σ × α) :=
  match f s with
  | some r => .ok r
  | none => .error ()

theorem Ipv4.updateInPlace_eq :
    updateInPlace num op arg = atOnce (orNone (·.update? num op arg)) := by
  funext h
  rw [updateInPlace, atOnce_apply, orNone, update?]
  by_cases hdec : num = .ipHop ∧ op = .dec
  · rw [if_pos hdec, if_pos hdec]
    rfl
  · rw [if_neg hdec, if_neg hdec]
    by_cases hversion : num = .ipVersion
    · rw [if_pos hversion, if_pos hversion]
      rfl
    · rw [if_neg hversion, if_neg hversion]
      cases slot? num <;> rfl

theorem Ipv6.updateInPlace_eq :
    updateInPlace num op arg = atOnce (orNone (·.update? num op arg)) := by
  funext h
  rw [updateInPlace, atOnce_apply, orNone, update?]
  cases bitField? num with
  | some field => rfl
  | none => cases slot? num <;> rfl

/-- Setting the flag first does no harm: a field that is not there is refused before. -/
theorem Gre.updateInPlace_eq : updateInPlace num op arg =
    atOnce (orNone fun h => (h.update? num op arg).map (·, true)) := by
  funext h
  cases num <;> rfl

theorem IpHeader.updateInPlace_eq :
    updateInPlace num op arg = atOnce (orNone (·.update? num op arg)) := by
  funext h
  cases h with
  | v4 h =>
    rw [updateInPlace, Ipv4.updateInPlace_eq]
    apply into_atOnce
    rw [orNone, orNone, update?]
    cases h.update? num op arg <;> rfl
  | v6 h =>
    rw [updateInPlace, Ipv6.updateInPlace_eq]
    apply into_atOnce
    rw [orNone, orNone, update?]
    cases h.update? num op arg <;> rfl
  | gre h =>
    rw [updateInPlace, Gre.updateInPlace_eq]
    apply into_atOnce
    rw [orNone, orNone, update?]
    cases h.update? num op arg <;> rfl

/-- A header of a chain that is left alone leaves the chain alone. -/
theorem IpChain.set_headers_self {c : IpChain} {i : Nat} {h : IpHeader}
    (hi : c.headers[i]? = some h) : { c with headers := c.headers.set i h } = c := by
  obtain ⟨hlt, rfl⟩ := List.getElem?_eq_some_iff.mp hi
  rw [List.set_getElem_self]

theorem IpChain.updateInPlace_eq : updateInPlace num inst op arg = atOnce fun c =>
    c.update num inst op arg := by
  funext c
  rw [updateInPlace, bind_apply, current_apply, atOnce_apply, update]
  dsimp only
  cases c.place? num inst with
  | none => rfl
  | some i =>
    dsimp only
    rw [mapError, atPlace, IpHeader.updateInPlace_eq]
    cases hi : c.headers[i]? with
    | none => simp [hi]
    | some h =>
      simp only [Option.bind_eq_bind, Option.bind_some, hi]
      rw [atOnce_apply, orNone]
      cases h.update? num op arg with
      | none =>
        simp only [into, Option.bind_none]
        rw [set_headers_self hi]
      | some r => rfl

theorem LabelStack.updateInPlace_eq : updateInPlace num inst op arg = atOnce fun s =>
    (Header.orAbsent num inst (s.update? num inst op arg)).map fun s => (s, true) := by
  funext s
  rw [updateInPlace, atOnce_apply, update?]
  cases field? num with
  | none => rfl
  | some field =>
    dsimp only [bind_apply, current_apply]
    cases inst.resolve s.depth <;> rfl

theorem Icmp6.updateInPlace_eq : updateInPlace num inst op arg = atOnce fun h =>
    (Header.sole num inst (h.update? num op arg)).map fun h => (h, true) := by
  funext h
  rw [updateInPlace, bind_apply, atOnce_apply, Header.sole]
  by_cases hsole : inst.isSole
  · rw [refuseIf_of_not (by simpa using hsole), if_pos hsole, update?]
    cases Icmp.slot? num with
    | some s => rfl
    | none =>
      cases linkOption? num with
      | some kind =>
        dsimp only [bind_apply, current_apply]
        cases h.linkPlace? kind <;> rfl
      | none =>
        dsimp only [bind_apply, current_apply]
        by_cases htarget : num = .ndTarget ∧ hasTarget h.type ∧ 16 ≤ h.body.length
        · rw [if_pos htarget, if_pos htarget]
          rfl
        · rw [if_neg htarget, if_neg htarget]
          rfl
  · rw [refuseIf_of (by simpa using hsole), if_neg hsole]
    rfl

/-- **Updating a field in place**: a refused update leaves the header alone. -/
theorem Header.update_inPlace :
    updateInPlace num inst op arg = atOnce (·.update num inst op arg) := by
  funext h
  cases h with
  | metadata h =>
    rw [updateInPlace, Metadata.updateInPlace_eq]
    apply into_atOnce
    rw [update]
    cases h.update num inst op arg <;> rfl
  | ethernet h =>
    rw [updateInPlace, Ethernet.updateInPlace_eq]
    apply into_atOnce
    rw [update]
    cases h.update num inst op arg <;> rfl
  | ip c =>
    rw [updateInPlace, IpChain.updateInPlace_eq]
    exact into_atOnce _ _ _ _ rfl
  | arp h =>
    rw [updateInPlace, updateSole_eq]
    apply into_atOnce
    show (sole num inst ((Arp.slot? num).map _)).map _ = _
    cases sole num inst ((Arp.slot? num).map _) <;> rfl
  | mpls s =>
    rw [updateInPlace, LabelStack.updateInPlace_eq]
    apply into_atOnce
    rw [update]
    cases orAbsent num inst (s.update? num inst op arg) <;> rfl
  | tcp h =>
    rw [updateInPlace, updateSole_eq]
    apply into_atOnce
    show (sole num inst ((Tcp.slot? num).map _)).map _ = _
    cases sole num inst ((Tcp.slot? num).map _) <;> rfl
  | udp h =>
    rw [updateInPlace, updateSole_eq]
    apply into_atOnce
    show (sole num inst ((Udp.slot? num).map _)).map _ = _
    cases sole num inst ((Udp.slot? num).map _) <;> rfl
  | icmp4 h =>
    rw [updateInPlace, updateSole_eq]
    apply into_atOnce
    show (sole num inst ((Icmp.slot? num).map _)).map _ = _
    cases sole num inst ((Icmp.slot? num).map _) <;> rfl
  | icmp6 h =>
    rw [updateInPlace, Icmp6.updateInPlace_eq]
    apply into_atOnce
    rw [update]
    cases sole num inst (h.update? num op arg) <;> rfl
  | payload b => rfl

end Dataplane
