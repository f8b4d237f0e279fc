import Valise.Library.Bytes

/-!
Programs that learn about a byte string only by exact reads: what they accept survives appending.
-/

namespace Reading

open ByteLists

inductive Program (ε α : Type) where
  | done (result : Except ε α)
  | read (offset len : Nat) (short : ε) (next : Bytes → Program ε α)

namespace Program

variable {ε α : Type}

def run (bytes : Bytes) : Program ε α → Except ε α
  | .done result => result
  | .read offset len short next =>
      if offset + len ≤ bytes.length then (next (slice bytes offset len)).run bytes
      else .error short

theorem run_append (program : Program ε α) {bytes : Bytes} (tail : Bytes) {value : α}
    (accepted : program.run bytes = .ok value) : program.run (bytes ++ tail) = .ok value := by
  induction program with
  | done result => exact accepted
  | read offset len short next ih =>
      rw [run] at accepted
      split at accepted
      · next inside =>
          have stillInside : offset + len ≤ (bytes ++ tail).length := by
            rw [List.length_append]
            omega
          rw [run, if_pos stillInside, slice_append_left _ _ _ _ inside]
          exact ih _ accepted
      · cases accepted

end Program

end Reading
