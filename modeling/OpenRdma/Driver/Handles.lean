import OpenRdma.Driver.Ctx
import OpenRdma.Foundations.Run

/-!
# Managers of handles

Queue pairs, completion queues and protection domains have a bitmap of the indices in use each. The
handle of a queue pair has random bits below its index that the bitmap does not keep.
-/

namespace OpenRdma.Driver

open List Function

/-- A manager: the number of its indices, the width of the random part, and the indices in use at
the start. -/
structure Manager where
  cap : ℕ
  width : ℕ
  reserved : ℕ → Bool

/-- The indices in use, and the handles given out and not destroyed. -/
structure Handles where
  bitmap : ℕ → Bool
  live : List ℕ := []

inductive HandleCall
  | create (key : ℕ)
  | destroy (handle : ℕ)

namespace Manager

/-- `create_qp`, `create_cq` and `alloc`. -/
def create (m : Manager) (bitmap : ℕ → Bool) (key : ℕ) : Option (ℕ × (ℕ → Bool)) :=
  ((range m.cap).find? fun i => !bitmap i).map fun index =>
    (index <<< m.width ||| key % 2 ^ m.width, update bitmap index true)

/-- `destroy_qp`, `destroy_cq` and `dealloc`. An index beyond the bitmap panics. -/
def destroy (m : Manager) (bitmap : ℕ → Bool) (handle : ℕ) : Option (Bool × (ℕ → Bool)) :=
  if handle >>> m.width < m.cap then some (bitmap (handle >>> m.width),
    update bitmap (handle >>> m.width) false)
  else none

def qpManager : Manager := ⟨maxQpCnt, qpnKeyPartWidth, (· == 0)⟩

def cqManager : Manager := ⟨1024, 0, fun _ => false⟩

def pdTable : Manager := ⟨256, 0, (· == 0)⟩

theorem create_qpManager (bitmap : ℕ → Bool) (key : ℕ) :
    (qpManager.create bitmap key).map (fun r => (r.1, ⟨r.2⟩)) =
    QpManager.createQp ⟨bitmap⟩ (key % 2 ^ 8) :=
  Option.map_map _ _ _

theorem destroy_qpManager (bitmap : ℕ → Bool) (qpn : ℕ) :
    (qpManager.destroy bitmap qpn).map (fun r => (r.1, ⟨r.2⟩)) = QpManager.destroyQp ⟨bitmap⟩ qpn :=
  apply_ite _ _ _ _

def step (m : Manager) (s : Handles) : HandleCall → Option Handles
  | .create key => some (((m.create s.bitmap key).map fun (handle, bitmap) =>
    ⟨bitmap, handle :: s.live⟩).getD s)
  | .destroy handle => (m.destroy s.bitmap handle).map fun (found, bitmap) =>
    ⟨bitmap, if found then s.live.erase handle else s.live⟩

/-- The call frees the handle if it is in use, and changes nothing else. -/
def Right (m : Manager) (s : Handles) (handle : ℕ) : Prop :=
  m.destroy s.bitmap handle = some (if handle ∈
    s.live then (true, update s.bitmap (handle >>> m.width) false)
    else (false, s.bitmap))

/-- The index is in range, and if it is in use then by this handle. -/
def Ok (m : Manager) (s : Handles) : HandleCall → Prop
  | .create _ => True
  | .destroy handle => handle >>> m.width < m.cap ∧
      (s.bitmap (handle >>> m.width) = true → handle ∈ s.live)

instance (m : Manager) (s : Handles) (call : HandleCall) : Decidable (m.Ok s call) := by
  unfold Ok
  split <;> infer_instance

/-- The handles in use have different indices, and those are marked. -/
structure Inv (m : Manager) (s : Handles) : Prop where
  nodup : (s.live.map (· >>> m.width)).Nodup
  used : ∀ handle ∈ s.live, handle >>> m.width < m.cap ∧ s.bitmap (handle >>> m.width) = true

variable {m : Manager} {s s' : Handles}

theorem Inv.right_iff (h : Inv m s) (handle : ℕ) : m.Right s handle ↔ m.Ok s (.destroy handle) := by
  rw [Right, destroy, Ok]
  by_cases hlive : handle ∈ s.live
  · obtain ⟨hlt, hused⟩ := h.used handle hlive
    simp [hlive, hlt, hused]
  · cases hused : s.bitmap (handle >>> m.width) <;> simp [hlive, hused, update_eq_self_iff]

theorem Inv.step {call : HandleCall} (h : Inv m s) (hok : m.Ok s call)
    (hs : m.step s call = some s') : Inv m s' := by
  cases call with
  | create key =>
    cases hs
    cases hfind : (range m.cap).find? fun i => !s.bitmap i with
    | none => simpa only [create, hfind, Option.map_none, Option.getD_none] using h
    | some index =>
      have hfree : s.bitmap index = false := by simpa using find?_some hfind
      have hindex : (index <<< m.width ||| key % 2 ^ m.width) >>> m.width = index := by
        rw [Nat.shiftRight_or_distrib, Nat.shiftLeft_shiftRight, Nat.shiftRight_eq_div_pow,
          Nat.div_eq_of_lt (Nat.mod_lt _ (Nat.two_pow_pos _)), Nat.or_zero]
      have hne : ∀ handle ∈ s.live, handle >>> m.width ≠ index := by
        rintro handle hlive rfl
        exact absurd ((h.used handle hlive).2.symm.trans hfree) (by decide)
      simp only [create, hfind, Option.map_some, Option.getD_some]
      refine ⟨?_, forall_mem_cons.2 ⟨?_, fun handle hlive => ⟨(h.used handle hlive).1, ?_⟩⟩⟩
      · rw [map_cons, hindex, nodup_cons, mem_map]
        exact ⟨fun ⟨handle, hlive, he⟩ => hne handle hlive he, h.nodup⟩
      · rw [hindex]
        exact ⟨mem_range.1 (mem_of_find?_eq_some hfind), update_self _ _ _⟩
      · exact (update_of_ne (hne handle hlive) _ _).trans (h.used handle hlive).2
  | destroy handle =>
    have hright := (h.right_iff handle).2 hok
    rw [Manager.step, hright] at hs
    cases hs
    by_cases hlive : handle ∈ s.live
    · simp only [hlive, if_true]
      have hnodup := h.nodup.of_map
      refine ⟨h.nodup.sublist (erase_sublist.map _), fun handle' hlive' => ?_⟩
      obtain ⟨hne, hmem⟩ := (hnodup.mem_erase_iff).1 hlive'
      have hne' : handle' >>> m.width ≠ handle >>> m.width :=
        fun he => hne (inj_on_of_nodup_map h.nodup hmem hlive he)
      exact ⟨(h.used handle' hmem).1, (update_of_ne hne' _ _).trans (h.used handle' hmem).2⟩
    · simpa [hlive] using h

/-- **In every run whose calls meet the condition, the handles in use are distinct, and in every
state reached exactly the calls that meet it answer right.** -/
theorem run_right {calls : List HandleCall} (h : Run m.step m.Ok ⟨m.reserved, []⟩ calls s) :
    s.live.Nodup ∧ ∀ handle, m.Right s handle ↔ m.Ok s (.destroy handle) :=
  have hinv := h.invariant (I := fun _ s => Inv m s) ⟨nodup_nil, nofun⟩ fun _ _ _ _ hi hok hs =>
    hi.step hok hs
  ⟨hinv.nodup.of_map, hinv.right_iff⟩

theorem run_right_two_qps : ∃ s, Run qpManager.step qpManager.Ok ⟨qpManager.reserved, []⟩
    [.create 7, .create 9, .destroy 0x107] s ∧ s.live = [0x209] ∧ qpManager.Right s 0x209 :=
  ⟨_, .of_isSome (by decide +kernel), by decide +kernel,
    ((run_right (.of_isSome _)).2 0x209).2 (by decide +kernel)⟩

/-- A wrong key destroys the queue pair, the first index can be destroyed, and a large handle
panics. -/
theorem destroy_wrong :
    (∃ s, Run qpManager.step qpManager.Ok ⟨qpManager.reserved, []⟩ [.create 7] s ∧ 0x108 ∉ s.live ∧
      (qpManager.destroy s.bitmap 0x108).map (·.1) = some true) ∧
    (pdTable.destroy pdTable.reserved 0).map (·.1) = some true ∧
    (cqManager.destroy cqManager.reserved 1024).isNone :=
  ⟨⟨_, .of_isSome (by decide +kernel), by decide +kernel, by decide +kernel⟩, by decide, by decide⟩

end Manager

end OpenRdma.Driver
