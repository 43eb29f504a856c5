import Mathlib.Logic.Basic

/-!
# Model — Error

`anyhow`: an error is its chain of causes, the outermost first.  `ensure!`, `bail!` and
`.context(…)` as the source uses them.
-/

namespace NiriBridge

/-- `anyhow::Error`, the texts of its chain from the outermost cause inwards. -/
abbrev Error := List String

/-- `anyhow::Result`. -/
abbrev Result (α : Type) := Except Error α

/-- `ensure!(c, message)`. -/
def ensure (c : Prop) [Decidable c] (message : String) : Result Unit :=
  if c then .ok () else .error [message]

/-- `.context(message)` on a `Result`. -/
def context {α : Type} (message : String) : Result α → Result α
  | .ok a => .ok a
  | .error e => .error (message :: e)

/-- `.context(message)` on an `Option`. -/
def orError {α : Type} (message : String) : Option α → Result α
  | some a => .ok a
  | none => .error [message]

/-- An operation of the system: it works, or fails with the given error. -/
def io : Option Error → Result Unit
  | none => .ok ()
  | some e => .error e

@[simp] theorem io_eq_ok {fault : Option Error} {u : Unit} : io fault = .ok u ↔ fault = none := by
  cases fault <;> simp [io]

@[simp] theorem ensure_eq_ok {c : Prop} [Decidable c] {message : String} {u : Unit} :
    ensure c message = .ok u ↔ c := by
  unfold ensure
  split <;> simp_all

@[simp] theorem ensure_eq_error {c : Prop} [Decidable c] {message : String} {e : Error} :
    ensure c message = .error e ↔ ¬ c ∧ e = [message] := by
  unfold ensure
  split <;> simp_all [eq_comm]

@[simp] theorem orError_eq_ok {α : Type} {message : String} {o : Option α} {a : α} :
    orError message o = .ok a ↔ o = some a := by
  cases o <;> simp [orError]

@[simp] theorem context_eq_ok {α : Type} {message : String} {r : Result α} {a : α} :
    context message r = .ok a ↔ r = .ok a := by
  cases r <;> simp [context]

/-- `r?; s` succeeds when both do. -/
@[simp] theorem bind_eq_ok {α β : Type} {r : Result α} {f : α → Result β} {b : β} :
    (r >>= f) = .ok b ↔ ∃ a, r = .ok a ∧ f a = .ok b := by
  cases r <;> simp [bind, Except.bind]

/-- `r?;` of a check. -/
theorem check_bind_eq_ok {β : Type} {r : Result Unit} {f : Unit → Result β} {b : β} :
    (r >>= f) = .ok b ↔ r = .ok () ∧ f () = .ok b := by
  rw [bind_eq_ok]
  exact ⟨fun ⟨_, h⟩ => h, fun h => ⟨(), h⟩⟩

@[simp] theorem bind_eq_error {α β : Type} {r : Result α} {f : α → Result β} {e : Error} :
    (r >>= f) = .error e ↔ r = .error e ∨ ∃ a, r = .ok a ∧ f a = .error e := by
  cases r <;> simp [bind, Except.bind]

/-- A loop of checks, `for x in xs { f(x)?; }`. -/
def forEach {α : Type} (f : α → Result Unit) : List α → Result Unit
  | [] => .ok ()
  | x :: xs => f x >>= fun _ => forEach f xs

@[simp] theorem forEach_eq_ok {α : Type} {f : α → Result Unit} {xs : List α} {u : Unit} :
    forEach f xs = .ok u ↔ ∀ x ∈ xs, f x = .ok () := by
  induction xs with
  | nil => simp [forEach]
  | cons x xs ih =>
      rw [forEach, check_bind_eq_ok, List.forall_mem_cons, ← ih]

/-- A loop that fails does so at one of its elements. -/
theorem forEach_eq_error {α : Type} {f : α → Result Unit} {xs : List α} {e : Error}
    (h : forEach f xs = .error e) : ∃ x ∈ xs, f x = .error e := by
  induction xs with
  | nil => cases h
  | cons x xs ih =>
      rw [forEach, bind_eq_error] at h
      rcases h with h | ⟨-, -, h⟩
      · exact ⟨x, List.mem_cons_self .., h⟩
      · obtain ⟨y, hy, h⟩ := ih h
        exact ⟨y, List.mem_cons_of_mem _ hy, h⟩

/-- The codes `manager::error_code` passes on to the control client. -/
def errorCodes : List String :=
  ["certificate_invalid", "certificate_changed", "private_key_selected",
    "certificate_name_ambiguous", "config_invalid", "settings_permissions", "settings_busy",
    "settings_conflict", "settings_write_failed", "layout_invalid", "layout_count_invalid",
    "layout_ids_invalid", "layout_overlap", "output_unavailable", "input_selection_empty",
    "input_path_invalid", "address_invalid", "peer_address_required", "pair_same_device",
    "peer_not_found", "peer_certificate_changed", "sharing_running", "config_exists",
    "session_locked", "peer_offline", "layout_unconfirmed"]

/-- `manager::error_code`: the first cause that is a known code. -/
def errorCode (error : Error) : String :=
  (error.find? (· ∈ errorCodes)).getD "operation_failed"

end NiriBridge
