/-
# Programs as text

The text that a program is stored as is read as the same program, so no two programs share one.
-/

import EvoSearch.Program.Json
import EvoSearch.Proofs.ReadBack

namespace EvoSearch

open Json

variable {α : Type}

theorem Json.integer?_ofNat {n size : Nat} (lt : n < size) :
    integer? 0 size (.ofNat n) = some (n : Int) :=
  if_pos ⟨Int.natCast_nonneg n, Int.ofNat_lt.mpr lt⟩

theorem byte?_ofNat (byte : UInt8) : (Json.ofNat byte.toNat).byte? = some byte := by
  rw [Json.byte?, integer?_ofNat byte.toNat_lt, Option.map_some, Int.toNat_natCast,
    UInt8.ofNat_toNat]

/-- A list is read back if its items are. -/
theorem list?_map {read : Json → Option α} {write : α → Json} {items : List α}
    (read_write : ∀ item ∈ items, read (write item) = some item) :
    list? read (.array (items.map write)) = some items := by
  rw [list?, List.mapM_map]
  induction items with
  | nil => rfl
  | cons item items ih =>
    obtain ⟨first, others⟩ := List.forall_mem_cons.mp read_write
    simp [first, ih others]

theorem Opcode.ofJson?_toJson (op : Opcode) : ofJson? op.toJson = some op := by
  rw [ofJson?, toJson, byte?_ofNat]
  rfl

theorem VariableKind.lookup_name (kind : VariableKind) : names.lookup kind.name = some kind := by
  cases kind <;> decide

theorem Address.ofJson?_toJson (address : Address) : ofJson? address.toJson = some address := by
  rw [toJson, ofJson?, VariableKind.lookup_name, byte?_ofNat]
  rfl

theorem Instruction.ofJson?_toJson (instruction : Instruction) :
    ofJson? instruction.toJson = some instruction := by
  have inputs_eq : list? Address.ofJson? (.array (instruction.inputs.map Address.toJson)) =
      some instruction.inputs :=
    list?_map fun input _ => Address.ofJson?_toJson input
  simp [ofJson?, toJson, fields?, required, withDefault, List.lookup_cons, Opcode.ofJson?_toJson,
    Address.ofJson?_toJson, inputs_eq]

namespace Program

theorem ofJson?_toJson (program : Program) : ofJson? program.toJson = some program := by
  have part_eq (row : List Instruction) :
      list? Instruction.ofJson? (.array (row.map Instruction.toJson)) = some row :=
    list?_map fun instruction _ => Instruction.ofJson?_toJson instruction
  simp [ofJson?, toJson, fields?, withDefault, List.lookup_cons, part_eq]

/-- The text of a program is read as the program. -/
theorem decode?_encode (program : Program) : decode? program.encode = some program := by
  rw [decode?, encode, ofText?_toText]
  exact ofJson?_toJson program

/-- Two programs are not stored as the same text. -/
theorem encode_injective : Function.Injective encode := by
  intro program other same
  apply Option.some.inj
  rw [← decode?_encode program, same, decode?_encode]

end Program

end EvoSearch
