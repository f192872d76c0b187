import Bounce.Objects.Buffer.Theorems.Content
import Bounce.Objects.TcpConnection.Basic

namespace Bounce

namespace Watch

variable {w : Watch}

theorem enableWriting_isWriting : w.enableWriting.isWriting := by
  have h : (w.events ||| Channel.kWriteEvent) &&& Channel.kWriteEvent = Channel.kWriteEvent := by
    ext i hi
    simp only [BitVec.getElem_and, BitVec.getElem_or]
    cases w.events[i] <;> simp
  simp only [isWriting, enableWriting, update, h]
  decide

theorem disableWriting_isWriting : ¬w.disableWriting.isWriting := by
  have h : (w.events &&& ~~~Channel.kWriteEvent) &&& Channel.kWriteEvent = 0 := by
    rw [BitVec.and_assoc, BitVec.and_comm (~~~_)]
    simp
  simp only [isWriting, disableWriting, update, h]
  decide

theorem disableAll_events : w.disableAll.events = 0 :=
  rfl

theorem isWriting_of_events (h : w.events = 0) : ¬w.isWriting := by
  rw [isWriting, h]
  decide

end Watch

namespace TcpConnection

variable {c : TcpConnection} {bytes message : List Byte} {r : Sent}

structure Streams (c : TcpConnection) (bytes : List Byte) : Prop where
  valid : c.outputBuffer.Valid
  bytes : c.socket.wire ++ c.outputBuffer.content = bytes

theorem keep_streams (message : List Byte) (h : c.Streams bytes) :
    (c.keep message).Streams (bytes ++ message) := by
  rw [keep]
  split
  case isTrue =>
    refine ⟨Buffer.append_valid h.valid _, ?_⟩
    rw [Buffer.append_content h.valid, ← List.append_assoc, h.bytes]
  case isFalse hl =>
    have hm : message = [] := by simpa using hl
    simpa [hm] using h

theorem sendInLoop_streams (h : c.Streams bytes) :
    (c.sendInLoop message r).1.Streams
      (if (c.sendInLoop message r).2 = .dropped then bytes else bytes ++ message) := by
  simp only [sendInLoop]
  split
  case isTrue  => exact h
  case isFalse =>
    split
    case isFalse => exact keep_streams _ h
    case isTrue hf =>
      have hc : c.outputBuffer.content = [] := by
        rw [← List.length_eq_zero_iff, h.valid.length_content]
        exact hf.right
      have hw : ({ c with socket := c.socket.send message r } : TcpConnection).Streams
          (bytes ++ message.take r.ret.toNat) := by
        refine ⟨h.valid, ?_⟩
        have hb := h.bytes
        rw [hc, List.append_nil] at hb
        simp [Socket.send, hc, hb]
      split
      case isTrue hr => simpa [hr] using hw
      case isFalse =>
        split
        case isTrue =>
          have hk := keep_streams (message.drop r.ret.toNat) hw
          rwa [List.append_assoc, List.take_append_drop] at hk
        case isFalse hr =>
          have hz : r.ret.toNat = 0 := Int.toNat_eq_zero.mpr (Int.not_lt.mp hr)
          rw [hz, List.take_zero, List.append_nil] at hw
          split
          case isTrue  => exact hw
          case isFalse => exact keep_streams _ hw

theorem handleWrite_streams (h : c.Streams bytes) : (c.handleWrite r).1.Streams bytes := by
  simp only [handleWrite]
  have hs : ({ c with
      socket       := c.socket.send (c.outputBuffer.peek.take c.outputBuffer.readableBytes) r
      outputBuffer := c.outputBuffer.retrieve r.ret.toNat } : TcpConnection).Streams bytes := by
    refine ⟨Buffer.retrieve_valid h.valid _, ?_⟩
    rw [← h.valid.content_eq_peek, Buffer.retrieve_content h.valid, Socket.send,
      List.append_assoc, List.take_append_drop, h.bytes]
  split
  case isTrue =>
    split
    case isTrue  => exact ⟨hs.valid, hs.bytes⟩
    case isFalse => exact hs
  case isFalse => exact h

theorem keep_state : (c.keep bytes).state = c.state := by
  rw [keep]
  split <;> rfl

theorem sendInLoop_keep : ∃ socket, (socket.shutWr = c.socket.shutWr ∧ socket.fd = c.socket.fd) ∧
    ((c.sendInLoop message r).1 = { c with socket := socket } ∨
      ∃ bytes, (c.sendInLoop message r).1 = keep { c with socket := socket } bytes) := by
  simp only [sendInLoop]
  split
  case isTrue => exact ⟨c.socket, ⟨rfl, rfl⟩, .inl rfl⟩
  case isFalse =>
    split
    case isFalse => exact ⟨c.socket, ⟨rfl, rfl⟩, .inr ⟨message, rfl⟩⟩
    case isTrue =>
      refine ⟨c.socket.send message r, ⟨rfl, rfl⟩, ?_⟩
      split
      case isTrue => exact .inl rfl
      case isFalse =>
        split
        case isTrue => exact .inr ⟨_, rfl⟩
        case isFalse =>
          split
          case isTrue  => exact .inl rfl
          case isFalse => exact .inr ⟨_, rfl⟩

theorem sendInLoop_state : (c.sendInLoop message r).1.state = c.state := by
  have ⟨_, _, h⟩ := @sendInLoop_keep c message r
  obtain h | ⟨_, h⟩ := h <;> rw [h]
  exact keep_state

theorem sendInLoop_disconnected (h : c.state = .disconnected) :
    c.sendInLoop message r = (c, .dropped) :=
  if_pos h

theorem handleWrite_state : (c.handleWrite r).1.state = c.state := by
  simp only [handleWrite]
  split
  case isTrue  => split <;> rfl
  case isFalse => rfl

theorem handleWrite_idle (h : ¬c.channel.isWriting) : c.handleWrite r = (c, false) :=
  if_neg (h ·.left)

theorem shutdownInLoop_state : c.shutdownInLoop.state = c.state := by
  rw [shutdownInLoop]
  split <;> rfl

theorem shutdownInLoop_channel : c.shutdownInLoop.channel = c.channel := by
  rw [shutdownInLoop]
  split <;> rfl

theorem keep_slot (h : c.channel.slot ≠ none) : (c.keep bytes).channel.slot ≠ none := by
  rw [keep]
  split
  case isTrue =>
    dsimp only
    split
    case isTrue  => exact Option.some_ne_none _
    case isFalse => exact h
  case isFalse => exact h

theorem sendInLoop_slot (h : c.channel.slot ≠ none) :
    (c.sendInLoop message r).1.channel.slot ≠ none := by
  have ⟨_, _, hk⟩ := @sendInLoop_keep c message r
  obtain hk | ⟨_, hk⟩ := hk <;> rw [hk]
  · exact h
  · exact keep_slot h

theorem handleWrite_slot (h : c.channel.slot ≠ none) : (c.handleWrite r).1.channel.slot ≠ none := by
  simp only [handleWrite]
  split
  case isTrue =>
    split
    case isTrue  => exact Option.some_ne_none _
    case isFalse => exact h
  case isFalse => exact h

theorem sendInLoop_dropped (h : (c.sendInLoop message r).2 = .dropped) :
    c.state = .disconnected ∨
      r.ret ≤ 0 ∧ r.ret ≠ message.length ∧ (r.errno = .EPIPE ∨ r.errno = .ECONNRESET) := by
  simp only [sendInLoop] at h
  split at h
  case isTrue hs => exact .inl hs
  case isFalse =>
    split at h
    case isFalse => contradiction
    case isTrue =>
      split at h
      case isTrue => contradiction
      case isFalse hl =>
        split at h
        case isTrue => contradiction
        case isFalse hp =>
          split at h
          case isTrue he => exact .inr ⟨Int.not_lt.mp hp, hl, he⟩
          case isFalse   => contradiction

theorem sendInLoop_not_dropped (hs : c.state ≠ .disconnected)
    (hr : 0 < r.ret ∨ r.ret = message.length ∨ r.errno = .EWOULDBLOCK) :
    (c.sendInLoop message r).2 ≠ .dropped := by
  intro h
  obtain ⟨hp, hl, he⟩ := (sendInLoop_dropped h).resolve_left hs
  obtain hr | hr | hr := hr
  · exact Int.not_lt.mpr hp hr
  · exact hl hr
  · simp [hr] at he

def Watchful (c : TcpConnection) : Prop :=
  c.outputBuffer.content ≠ [] → c.channel.isWriting

theorem keep_watchful (h : c.Watchful) : (c.keep bytes).Watchful := by
  intro hn
  rw [keep] at hn ⊢
  split at hn
  case isFalse hl =>
    rw [if_neg hl]
    exact h hn
  case isTrue hl =>
    rw [if_pos hl]
    by_cases hw : c.channel.isWriting
    case pos => simp [hw]
    case neg => simpa [hw] using Watch.enableWriting_isWriting

theorem sendInLoop_watchful (h : c.Watchful) : (c.sendInLoop message r).1.Watchful := by
  have ⟨socket, _, hk⟩ := @sendInLoop_keep c message r
  obtain hk | ⟨_, hk⟩ := hk <;> rw [hk]
  · exact h
  · exact keep_watchful (c := { c with socket := socket }) h

theorem handleWrite_watchful (hv : c.outputBuffer.Valid) (h : c.Watchful) :
    (c.handleWrite r).1.Watchful := by
  simp only [handleWrite]
  split
  case isFalse => exact h
  case isTrue hw =>
    split
    case isFalse => exact fun _ => hw.left
    case isTrue he =>
      intro hn
      have hv := Buffer.retrieve_valid hv r.ret.toNat
      have hl := hv.length_content
      exact absurd (List.length_eq_zero_iff.mp (hl.trans he)) hn

theorem keep_shutWr : (c.keep bytes).socket.shutWr = c.socket.shutWr := by
  rw [keep]
  split <;> rfl

theorem sendInLoop_shutWr : (c.sendInLoop message r).1.socket.shutWr = c.socket.shutWr := by
  have ⟨_, hs, hk⟩ := @sendInLoop_keep c message r
  obtain hk | ⟨_, hk⟩ := hk <;> rw [hk]
  · exact hs.left
  · exact keep_shutWr.trans hs.left

theorem handleWrite_shutWr : (c.handleWrite r).1.socket.shutWr = c.socket.shutWr := by
  simp only [handleWrite]
  split
  case isTrue  => split <;> rfl
  case isFalse => rfl

theorem keep_fd : (c.keep bytes).socket.fd = c.socket.fd := by
  rw [keep]
  split <;> rfl

theorem sendInLoop_fd : (c.sendInLoop message r).1.socket.fd = c.socket.fd := by
  have ⟨_, hs, hk⟩ := @sendInLoop_keep c message r
  obtain hk | ⟨_, hk⟩ := hk <;> rw [hk]
  · exact hs.right
  · exact keep_fd.trans hs.right

theorem handleWrite_fd : (c.handleWrite r).1.socket.fd = c.socket.fd := by
  simp only [handleWrite]
  split
  case isTrue  => split <;> rfl
  case isFalse => rfl

theorem handleWrite_drained (hv : c.outputBuffer.Valid) (h : c.outputBuffer.content = []) :
    (c.handleWrite r).1.outputBuffer.content = [] := by
  have hd : (c.outputBuffer.retrieve r.ret.toNat).content = [] := by
    rw [Buffer.retrieve_content hv, h, List.drop_nil]
  simp only [handleWrite]
  split
  case isTrue  => split <;> exact hd
  case isFalse => exact h

def InStep (c : TcpConnection) : Prop :=
  c.channel.isWriting ↔ c.outputBuffer.content ≠ []

theorem keep_content (hv : c.outputBuffer.Valid) (bytes : List Byte) :
    (c.keep bytes).outputBuffer.content = c.outputBuffer.content ++ bytes := by
  rw [keep]
  split
  case isTrue     => exact Buffer.append_content hv bytes
  case isFalse hl =>
    have hb : bytes = [] := by simpa using hl
    rw [hb, List.append_nil]

theorem keep_inStep (hv : c.outputBuffer.Valid) (h : c.InStep) : (c.keep bytes).InStep := by
  have hc := keep_content hv bytes
  rw [InStep, hc]
  rw [keep]
  split
  case isTrue hl =>
    have hb : bytes ≠ [] := List.length_pos_iff.mp hl
    simp only [ne_eq, List.append_eq_nil_iff, hb, and_false, not_false_eq_true, iff_true]
    split
    case isTrue     => exact Watch.enableWriting_isWriting
    case isFalse hw => exact not_not.mp hw
  case isFalse hl =>
    have hb : bytes = [] := by simpa using hl
    rwa [hb, List.append_nil]

theorem sendInLoop_inStep (hv : c.outputBuffer.Valid) (h : c.InStep) :
    (c.sendInLoop message r).1.InStep := by
  have ⟨socket, _, hk⟩ := @sendInLoop_keep c message r
  obtain hk | ⟨_, hk⟩ := hk <;> rw [hk]
  · exact h
  · exact keep_inStep (c := { c with socket := socket }) hv h

theorem handleWrite_inStep (hv : c.outputBuffer.Valid) (h : c.InStep) :
    (c.handleWrite r).1.InStep := by
  simp only [handleWrite]
  split
  case isFalse => exact h
  case isTrue hw =>
    have hl := (Buffer.retrieve_valid hv r.ret.toNat).length_content
    split
    case isTrue he =>
      have hc := List.length_eq_zero_iff.mp (hl.trans he)
      exact ⟨fun hd => absurd hd Watch.disableWriting_isWriting, fun hn => absurd hc hn⟩
    case isFalse he =>
      exact ⟨fun _ hn => he (hl.symm.trans (List.length_eq_zero_iff.mpr hn)), fun _ => hw.left⟩

theorem shutdownInLoop_outputBuffer : c.shutdownInLoop.outputBuffer = c.outputBuffer := by
  rw [shutdownInLoop]
  split <;> rfl

theorem shutdownInLoop_wire : c.shutdownInLoop.socket.wire = c.socket.wire := by
  rw [shutdownInLoop]
  split <;> rfl

theorem shutdownInLoop_fd : c.shutdownInLoop.socket.fd = c.socket.fd := by
  rw [shutdownInLoop]
  split <;> rfl

theorem shutdownInLoop_shutWr (h : ¬c.channel.isWriting) : c.shutdownInLoop.socket.shutWr := by
  rw [shutdownInLoop, if_pos h]
  rfl

theorem sendInLoop_finished (hv : c.outputBuffer.Valid)
    (hf : (c.sendInLoop message r).2 = .finished) :
    c.outputBuffer.content = [] ∧ (c.sendInLoop message r).1.outputBuffer.content = [] := by
  simp only [sendInLoop] at hf ⊢
  split at hf
  case isTrue => contradiction
  case isFalse hs =>
    rw [if_neg hs]
    split at hf
    case isFalse => contradiction
    case isTrue he =>
      have hc := List.length_eq_zero_iff.mp (hv.length_content.trans he.right)
      rw [if_pos he]
      split at hf
      case isTrue hr => exact ⟨hc, by rwa [if_pos hr]⟩
      case isFalse   => split at hf <;> [skip; split at hf] <;> contradiction

theorem sendInLoop_kept (hv : c.outputBuffer.Valid) (hr : r.ret ≤ message.length)
    (hf : (c.sendInLoop message r).2 = .kept)
    (hn : (c.sendInLoop message r).1.outputBuffer.content = []) :
    c.outputBuffer.content = [] ∧ message = [] := by
  have hk : ∀ socket, (keep { c with socket := socket } message).outputBuffer.content = [] →
      c.outputBuffer.content = [] ∧ message = [] := by
    intro socket hn
    rw [keep_content (c := { c with socket := socket }) hv message] at hn
    exact List.append_eq_nil_iff.mp hn
  simp only [sendInLoop] at hf hn
  split at hf
  case isTrue => contradiction
  case isFalse hs =>
    rw [if_neg hs] at hn
    split at hf
    case isFalse hb =>
      rw [if_neg hb] at hn
      exact hk c.socket hn
    case isTrue hb =>
      rw [if_pos hb] at hn
      split at hf
      case isTrue => contradiction
      case isFalse hl =>
        rw [if_neg hl] at hn
        split at hf
        case isTrue hp =>
          rw [if_pos hp, keep_content
            (c := { c with socket := c.socket.send message r }) hv _] at hn
          have hd := List.drop_eq_nil_iff.mp (List.append_eq_nil_iff.mp hn).right
          omega
        case isFalse hp =>
          rw [if_neg hp] at hn
          split at hf
          case isTrue     => contradiction
          case isFalse he =>
            rw [if_neg he] at hn
            exact hk _ hn

theorem handleWrite_finished_iff (hv : c.outputBuffer.Valid) (h : c.InStep) :
    (c.handleWrite r).2 ↔ c.outputBuffer.content ≠ [] ∧
    (c.handleWrite r).1.outputBuffer.content = [] := by
  simp only [handleWrite]
  split
  case isFalse hw =>
    simp only [Bool.false_eq_true, false_iff, not_and]
    exact fun hn hc => hn hc
  case isTrue hw =>
    have hl := (Buffer.retrieve_valid hv r.ret.toNat).length_content
    split
    case isTrue he =>
      exact ⟨fun _ => ⟨h.mp hw.left, List.length_eq_zero_iff.mp (hl.trans he)⟩, fun _ => rfl⟩
    case isFalse he =>
      simp only [Bool.false_eq_true, false_iff, not_and]
      exact fun _ hc => he (hl.symm.trans (List.length_eq_zero_iff.mpr hc))

end TcpConnection
end Bounce
