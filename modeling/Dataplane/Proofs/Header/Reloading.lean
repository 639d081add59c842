import Dataplane.Proofs.Header.Reading
import Dataplane.Proofs.Header.Stacks
import Dataplane.Proofs.InPlace.Shapes

/-!
# Headers read back from overwritten bytes

A header whose bytes have been overwritten emits exactly those bytes (`Header.emit_writeRaw`), and
is of the shape it had (`Header.sameShape_writeRaw`): of the same kinds and lengths, and with the
same trailer.

## The model

What is overwritten goes through `Header.reload?`, which reads the bytes as a header once more. Most
headers are read by the reader that parses frames, which takes the bytes its result emits; nothing
may then be left over. The others take the bytes as they are. A chain gives each of its headers as
many bytes as it had, so the bytes it is given have to be as many as its own.
-/

namespace Dataplane

open Dataplane.Frame

/-! ### Emitting what was given -/

/-- A reader that leaves nothing of some bytes has taken all of them. -/
theorem Frame.Reads.eq_of_unread {b bytes : Bytes} {f : Frame} (h : (ofBytes b).Reads bytes f)
    (hf : f.unread = []) : bytes = b := by
  rw [Reads, hf, List.append_nil] at h
  exact h.symm

theorem Block.bytes_of_ofBytes {n : Nat} {b : Bytes} {block : Block n}
    (h : ofBytes? n b = some block) : block.bytes = b := by
  rw [ofBytes?] at h
  split at h
  · cases h
    rfl
  · cases h

theorem Ethernet.emit_reload {e e' : Ethernet} {b : Bytes} (h : e.reload? b = some e') :
    e'.emit = b := by
  rw [reload?] at h
  split at h
  · rename_i hread
    split at h
    · rename_i hshape
      cases h
      exact (reads_of_read hread).eq_of_unread hshape.2
    · cases h
  · cases h

theorem Ipv4.emit_reload {h h' : Ipv4} {b : Bytes} (e : h.reload? b = some h') : h'.emit = b := by
  rw [reload?] at e
  split at e
  · rename_i base hbase
    split at e
    · cases e
      rw [emit, Block.bytes_of_ofBytes hbase]
      exact List.take_append_drop 20 b
    · cases e
  · cases e

theorem Ipv6.emit_reload {h : Ipv6} {b : Bytes} (e : reload? b = some h) : h.emit = b := by
  obtain ⟨base, hbase, rfl⟩ := Option.map_eq_some_iff.mp e
  exact Block.bytes_of_ofBytes hbase

theorem Gre.emit_reload {h h' : Gre} {b : Bytes} (e : h.reload? b = some h') : h'.emit = b := by
  rw [reload?] at e
  split at e
  · rename_i hread
    split at e
    · rename_i hshape
      cases e
      exact (reads_of_read hread).eq_of_unread hshape.1
    · cases e
  · cases e

theorem IpHeader.emit_reload {h h' : IpHeader} {b : Bytes} (e : h.reload? b = some h') :
    h'.emit = b := by
  cases h with
  | v4 v =>
    obtain ⟨v', hv, rfl⟩ := Option.map_eq_some_iff.mp e
    exact Ipv4.emit_reload hv
  | v6 v =>
    obtain ⟨v', hv, rfl⟩ := Option.map_eq_some_iff.mp e
    exact Ipv6.emit_reload hv
  | gre g =>
    obtain ⟨g', hg, rfl⟩ := Option.map_eq_some_iff.mp e
    exact Gre.emit_reload hg

namespace IpChain

variable {hs hs' : List IpHeader} {b : Bytes}

/-- Each header of a list has been read from the bytes that stand where it stood. -/
theorem reloadHeaders_cons {h : IpHeader} (e : reloadHeaders? (h :: hs) b = some hs') :
    ∃ h' rest, hs' = h' :: rest ∧ h.reload? (b.take h.wireLen) = some h' ∧
      reloadHeaders? hs (b.drop h.wireLen) = some rest := by
  rw [reloadHeaders?] at e
  split at e
  · rename_i h' hh
    obtain ⟨rest, hrest, rfl⟩ := Option.map_eq_some_iff.mp e
    exact ⟨h', rest, rfl, hh, hrest⟩
  · cases e

theorem reloadHeaders_nil (e : reloadHeaders? [] b = some hs') : b = [] ∧ hs' = [] := by
  simpa [reloadHeaders?, eq_comm] using e

theorem emit_reloadHeaders (e : reloadHeaders? hs b = some hs') : emitHeaders hs' = b := by
  induction hs generalizing b hs' with
  | nil =>
    obtain ⟨rfl, rfl⟩ := reloadHeaders_nil e
    rfl
  | cons h hs ih =>
    obtain ⟨h', rest, rfl, hh, hrest⟩ := reloadHeaders_cons e
    have htail : rest.flatMap (·.emit) = b.drop h.wireLen := ih hrest
    rw [emitHeaders, List.flatMap_cons, IpHeader.emit_reload hh, htail, List.take_append_drop]

/-- Of as many bytes as a list of headers has, the first are as many as its first header has, and
the rest as many as the rest. -/
theorem lengths_of_cons {h : IpHeader} (hlen : b.length = (h :: hs).foldr (·.wireLen + ·) 0) :
    (b.take h.wireLen).length = h.wireLen ∧
      (b.drop h.wireLen).length = hs.foldr (·.wireLen + ·) 0 := by
  rw [List.foldr_cons] at hlen
  rw [List.length_take, List.length_drop]
  omega

/-- Headers that were given as many bytes as they had are as long as they were. -/
theorem lengths_reloadHeaders (e : reloadHeaders? hs b = some hs')
    (hlen : b.length = hs.foldr (·.wireLen + ·) 0) :
    hs'.map (·.wireLen) = hs.map (·.wireLen) := by
  induction hs generalizing b hs' with
  | nil =>
    obtain ⟨-, rfl⟩ := reloadHeaders_nil e
    rfl
  | cons h hs ih =>
    obtain ⟨h', rest, rfl, hh, hrest⟩ := reloadHeaders_cons e
    obtain ⟨hown, hothers⟩ := lengths_of_cons hlen
    rw [List.map_cons, List.map_cons, ← h'.length_emit, IpHeader.emit_reload hh, hown,
      ih hrest hothers]

end IpChain

theorem LabelStack.emit_reload {s s' : LabelStack} {b : Bytes} (h : s.reload? b = some s') :
    s'.emit = b := by
  rw [reload?] at h
  split at h
  · rename_i hread
    split at h
    · rename_i hshape
      cases h
      exact (reads_of_read hread).eq_of_unread hshape.1
    · cases h
  · cases h

theorem Arp.emit_reload {h : Arp} {b : Bytes} (e : reload? b = some h) : h.emit = b := by
  rw [reload?] at e
  split at e
  · rename_i base hbase
    split at e
    · cases e
      exact Block.bytes_of_ofBytes hbase
    · cases e
  · cases e

theorem Tcp.emit_reload {h h' : Tcp} {b : Bytes} (e : h.reload? b = some h') : h'.emit = b := by
  rw [reload?] at e
  split at e
  · rename_i hread
    split at e
    · rename_i hunread
      cases e
      exact (reads_of_read hread).eq_of_unread hunread
    · cases e
  · cases e

theorem Udp.emit_reload {h h' : Udp} {b : Bytes} (e : h.reload? b = some h') : h'.emit = b := by
  obtain ⟨base, hbase, rfl⟩ := Option.map_eq_some_iff.mp e
  exact Block.bytes_of_ofBytes hbase

theorem Icmp4.emit_reload {h : Icmp4} {b : Bytes} (e : reload? b = some h) : h.emit = b := by
  obtain ⟨base, hbase, rfl⟩ := Option.map_eq_some_iff.mp e
  exact Block.bytes_of_ofBytes hbase

theorem Icmp6.emit_reload {h h' : Icmp6} {b : Bytes} (e : h.reload? b = some h') :
    h'.emit = b := by
  rw [reload?] at e
  split at e
  · rename_i hread
    split at e
    · rename_i hshape
      cases e
      exact (reads_of_read hread).eq_of_unread hshape.1
    · cases e
  · cases e

namespace Header

variable {h h' : Header} {b val : Bytes} {start : Nat}

/-- A header read back from some bytes emits them. -/
theorem emit_reload (e : h.reload? b = some h') : h'.emit = b := by
  cases h with
  | metadata m =>
    obtain ⟨rfl, e⟩ := Option.ite_none_right_eq_some.mp e
    cases e
    rfl
  | ethernet x =>
    obtain ⟨x', hx, rfl⟩ := Option.map_eq_some_iff.mp e
    exact Ethernet.emit_reload hx
  | ip c =>
    obtain ⟨c', hc, rfl⟩ := Option.map_eq_some_iff.mp e
    obtain ⟨hs, hhs, rfl⟩ := Option.map_eq_some_iff.mp hc
    exact IpChain.emit_reloadHeaders hhs
  | arp x =>
    obtain ⟨x', hx, rfl⟩ := Option.map_eq_some_iff.mp e
    exact Arp.emit_reload hx
  | mpls x =>
    obtain ⟨x', hx, rfl⟩ := Option.map_eq_some_iff.mp e
    exact LabelStack.emit_reload hx
  | tcp x =>
    obtain ⟨x', hx, rfl⟩ := Option.map_eq_some_iff.mp e
    exact Tcp.emit_reload hx
  | udp x =>
    obtain ⟨x', hx, rfl⟩ := Option.map_eq_some_iff.mp e
    exact Udp.emit_reload hx
  | icmp4 x =>
    obtain ⟨x', hx, rfl⟩ := Option.map_eq_some_iff.mp e
    exact Icmp4.emit_reload hx
  | icmp6 x =>
    obtain ⟨x', hx, rfl⟩ := Option.map_eq_some_iff.mp e
    exact Icmp6.emit_reload hx
  | payload old =>
    obtain ⟨-, e⟩ := Option.ite_none_right_eq_some.mp e
    cases e
    rfl

theorem writeRaw_eq_some_iff : h.writeRaw? start val = some h' ↔
    start + val.length ≤ h.emit.length ∧
      h.reload? (h.emit.take start ++ val ++ h.emit.drop (start + val.length)) = some h' := by
  rw [writeRaw?, Bytes.overwrite?]
  split <;> simp [*]

/-- A header whose bytes were overwritten emits them overwritten. -/
theorem emit_writeRaw (e : h.writeRaw? start val = some h') :
    h'.emit = h.emit.take start ++ val ++ h.emit.drop (start + val.length) :=
  emit_reload (writeRaw_eq_some_iff.mp e).2

theorem length_writeRaw (e : h.writeRaw? start val = some h') :
    h'.emit.length = h.emit.length := by
  have hfits := (writeRaw_eq_some_iff.mp e).1
  rw [emit_writeRaw e]
  simp only [List.length_append, List.length_take, List.length_drop]
  omega

/-! ### Keeping the shape -/

/-- The lengths of the headers that a stack holds. -/
def lengths : Header → List Nat
  | ip c => c.headers.map (·.wireLen)
  | mpls s => s.entries.map (·.bytes.length)
  | h => [h.wireLen]

/-- Both hold headers of the same kinds and lengths, and have the same trailer. -/
structure SameShape (h h' : Header) : Prop where
  kinds : h'.stack = h.stack
  lengths : h'.lengths = h.lengths
  trailer : h'.trailer = h.trailer

theorem SameShape.refl (h : Header) : h.SameShape h := ⟨rfl, rfl, rfl⟩

theorem trailer_reload (e : h.reload? b = some h') : h'.trailer = h.trailer := by
  cases h <;> simp only [reload?, Option.map_eq_some_iff, Option.ite_none_right_eq_some,
    Option.some.injEq] at e
  case ip =>
    obtain ⟨c', hc, rfl⟩ := e
    obtain ⟨hs, -, rfl⟩ := Option.map_eq_some_iff.mp hc
    rfl
  case metadata | payload =>
    obtain ⟨-, rfl⟩ := e
    rfl
  all_goals
    obtain ⟨_, -, rfl⟩ := e
    rfl

theorem lengths_reload (e : h.reload? b = some h') (hlen : b.length = h.wireLen) :
    h'.lengths = h.lengths := by
  have hwire : h'.wireLen = h.wireLen := by rw [← length_emit, emit_reload e, hlen]
  cases h <;> simp only [reload?, Option.map_eq_some_iff, Option.ite_none_right_eq_some,
    Option.some.injEq] at e
  case ip =>
    obtain ⟨c', hc, rfl⟩ := e
    obtain ⟨hs, hhs, rfl⟩ := Option.map_eq_some_iff.mp hc
    exact IpChain.lengths_reloadHeaders hhs hlen
  case mpls s =>
    obtain ⟨s', hs, rfl⟩ := e
    have hentries (s : LabelStack) : (mpls s).lengths = List.replicate s.depth 4 := by
      simp [lengths, Block.length_eq, LabelStack.depth]
    rw [hentries, hentries, LabelStack.depth_reload hs]
  case metadata | payload =>
    obtain ⟨-, rfl⟩ := e
    exact congrArg ([·]) hwire
  all_goals
    obtain ⟨_, -, rfl⟩ := e
    exact congrArg ([·]) hwire

/-- Bytes that are overwritten leave the shape of a header as it is. -/
theorem sameShape_writeRaw (e : h.writeRaw? start val = some h') : h.SameShape h' := by
  obtain ⟨b, hb, hreload⟩ := Option.bind_eq_some_iff.mp e
  have hlen : b.length = h.wireLen := by rw [Bytes.length_of_overwrite hb, h.length_emit]
  exact ⟨stack_writeRaw e, lengths_reload hreload hlen, trailer_reload hreload⟩

end Header

end Dataplane
