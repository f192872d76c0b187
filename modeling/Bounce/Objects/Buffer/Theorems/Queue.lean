import Bounce.Library.Steps
import Bounce.Objects.Buffer.Theorems.Content

open List

namespace Bounce.Buffer

inductive Op
  | append (src : List Byte)
  | writeInt8 (num : BitVec (8 * kInt8Size))
  | writeInt16 (num : BitVec (8 * kInt16Size))
  | writeInt32 (num : BitVec (8 * kInt32Size))
  | readFd (answer : Readv)
  | readAsString (size : Nat)
  | readAllAsString
  | retrieve (len : Nat)

namespace Op

-- `::readv` never stores more than its two segments hold.
def Allowed (b : Buffer) : Op → Prop
  | readFd (.received bytes) => bytes.length ≤ b.writeableBytes + stackBufferSize
  | _                        => True

def exec (b : Buffer) : Op → Buffer × List Byte
  | append src        => (b.append src, [])
  | writeInt8 num     => (b.writeInt8 num, [])
  | writeInt16 num    => (b.writeInt16 num, [])
  | writeInt32 num    => (b.writeInt32 num, [])
  | readFd answer     => (b.readFd answer, [])
  | readAsString size => b.readAsString size
  | readAllAsString   => b.readAllAsString
  | retrieve len      => (b.retrieve len, [])

def onQueue (q : List Byte) : Op → List Byte × List Byte
  | append src               => (q ++ src, [])
  | writeInt8 num            => (q ++ bytesOf kInt8Size num.toNat, [])
  | writeInt16 num           => (q ++ bytesOf kInt16Size num.toNat, [])
  | writeInt32 num           => (q ++ bytesOf kInt32Size num.toNat, [])
  | readFd (.error _)        => (q, [])
  | readFd (.received bytes) => (q ++ bytes, [])
  | readAsString size        => (q.drop size, q.take size)
  | readAllAsString          => ([], q)
  | retrieve len             => (q.drop len, [])

theorem exec_valid {b : Buffer} (h : b.Valid) : (op : Op) → (op.exec b).1.Valid
  | append _ | writeInt8 _ | writeInt16 _ | writeInt32 _ => append_valid h _
  | readFd _                                              => readFd_valid h _
  | readAsString _ | readAllAsString                      => readAsString_valid h _
  | retrieve _                                            => retrieve_valid h _

theorem exec_onQueue {b : Buffer} (h : b.Valid) :
    (op : Op) → op.onQueue b.content = ((op.exec b).1.content, (op.exec b).2)
  | append _             => by simp [onQueue, exec, append_content h]
  | writeInt8 _          => by simp [onQueue, exec, Buffer.writeInt8, writeInt_content h]
  | writeInt16 _         => by simp [onQueue, exec, Buffer.writeInt16, writeInt_content h]
  | writeInt32 _         => by simp [onQueue, exec, Buffer.writeInt32, writeInt_content h]
  | readFd (.error _)    => by simp [onQueue, exec, readFd_error]
  | readFd (.received _) => by simp [onQueue, exec, (readFd_received h).right]
  | readAsString _       => by simp [onQueue, exec, readAsString_content h, readAsString_str h]
  | readAllAsString =>
    by simp [onQueue, exec, readAllAsString_content h, readAllAsString_str h]
  | retrieve _           => by simp [onQueue, exec, retrieve_content h]

def chunk : Op → Option (List Byte)
  | append src               => some src
  | readFd (.received bytes) => some bytes
  | _                        => none

theorem onQueue_chunk {op : Op} {q bytes : List Byte} (h : op.chunk = some bytes) :
    op.onQueue q = (q ++ bytes, []) := by
  cases op
  case readFd answer => cases answer <;> simp_all [chunk, onQueue]
  all_goals simp_all [chunk, onQueue]

end Op

structure Session (β : Type) where
  store    : β
  returned : List (List Byte)

namespace Session

def Step (s₁ : Session Buffer) (op : Op) (s₂ : Session Buffer) : Prop :=
  op.Allowed s₁.store ∧ s₂ = ⟨(op.exec s₁.store).1, s₁.returned ++ [(op.exec s₁.store).2]⟩

def QueueStep (s₁ : Session (List Byte)) (op : Op) (s₂ : Session (List Byte)) : Prop :=
  s₂ = ⟨(op.onQueue s₁.store).1, s₁.returned ++ [(op.onQueue s₁.store).2]⟩

def toQueue (s : Session Buffer) : Session (List Byte) :=
  ⟨s.store.content, s.returned⟩

variable {s s₁ s₂ : Session Buffer} {op : Op} {ops : List Op}

theorem Step.valid (h : s₁.store.Valid) (e : Step s₁ op s₂) : s₂.store.Valid :=
  e.right ▸ op.exec_valid h

theorem Step.toQueue (h : s₁.store.Valid) (e : Step s₁ op s₂) :
    QueueStep s₁.toQueue op s₂.toQueue := by
  have hq := op.exec_onQueue h
  simp [QueueStep, Session.toQueue, e.right, hq]

theorem run_toQueue (e : Steps Step s₁ ops s₂) (h : s₁.store.Valid) :
    Steps QueueStep s₁.toQueue ops s₂.toQueue :=
  e.simulate (P := (·.store.Valid)) toQueue (fun h e => e.valid h) (fun h e => e.toQueue h) h

theorem queue_chunks {q q' : Session (List Byte)} (e : Steps QueueStep q ops q')
    (h : ∀ op ∈ ops, op.chunk.isSome) :
    q'.store = q.store ++ (ops.filterMap Op.chunk).flatten := by
  induction e
  case refl => simp
  case step op _ hs _ hi =>
    have ⟨bytes, hb⟩ := Option.isSome_iff_exists.mp (h op mem_cons_self)
    rw [hi fun o ho => h o (mem_cons_of_mem _ ho), hs, Op.onQueue_chunk hb]
    simp [hb]

theorem run_chunks {ops₁ ops₂ : List Op} {t₁ t₂ : Session Buffer} (h : s.store.Valid)
    (e₁ : Steps Step s ops₁ t₁) (e₂ : Steps Step s ops₂ t₂)
    (h₁ : ∀ op ∈ ops₁, op.chunk.isSome) (h₂ : ∀ op ∈ ops₂, op.chunk.isSome)
    (hb : (ops₁.filterMap Op.chunk).flatten = (ops₂.filterMap Op.chunk).flatten) :
    t₁.store.content = t₂.store.content := by
  have hq₁ := queue_chunks (run_toQueue e₁ h) h₁
  have hq₂ := queue_chunks (run_toQueue e₂ h) h₂
  exact hq₁.trans (hb ▸ hq₂.symm)

end Session

theorem refines_queue (initSize : Nat) :
    (∀ ops (s : Session Buffer), Steps Session.Step ⟨new initSize, []⟩ ops s →
      Steps Session.QueueStep ⟨[], []⟩ ops s.toQueue ∧
      (∀ errno, s.store.readFd (.error errno) = s.store) ∧
      (∀ bytes, bytes.length ≤ s.store.writeableBytes + stackBufferSize →
        Steps Session.Step s [.readFd (.received bytes)]
          ⟨s.store.readFd (.received bytes), s.returned ++ [[]]⟩)) ∧
    (∀ ops₁ ops₂ (s₁ s₂ : Session Buffer),
      Steps Session.Step ⟨new initSize, []⟩ ops₁ s₁ →
      Steps Session.Step ⟨new initSize, []⟩ ops₂ s₂ →
      (∀ op ∈ ops₁, op.chunk.isSome) → (∀ op ∈ ops₂, op.chunk.isSome) →
      (ops₁.filterMap Op.chunk).flatten = (ops₂.filterMap Op.chunk).flatten →
      s₁.store.content = s₂.store.content) := by
  have hv : (Session.mk (new initSize) []).store.Valid := new_valid initSize
  refine ⟨fun ops s e => ⟨?queue, fun _ => rfl, fun bytes hb => ?readFd⟩, ?chunks⟩
  case queue  => simpa [Session.toQueue] using Session.run_toQueue e hv
  case readFd => exact .single ⟨hb, rfl⟩
  case chunks => exact fun _ _ _ _ e₁ e₂ => Session.run_chunks hv e₁ e₂

end Bounce.Buffer
