/-
  StageRig.Proofs.Schema.Decode — the data that a tree stands for.

  `decode` takes a tree and a schema to the data they stand for, or to the first fault in
  the order of the text. It knows nothing of blanks, marks and steps: what these contribute
  is settled where the reader is shown to be this function.

  What lies in a field that the record does not have is no part of the data, and `decode`
  does not look at it.
-/

import StageRig.Proofs.Json.Scan
import StageRig.Schema.Reader

namespace StageRig

open Json

namespace Json

/-! ## Trees that are not what they should be -/

/-- What stands in the place of something else, for a message. -/
def Node.found : Node → Except LoadError Found
  | .null => .ok .null
  | .bool b => .ok (.bool b)
  | .number negative f => f.found negative
  | .string gs => gs.value.map fun s => .text (String.ofList s)
  | .list _ => .ok .sequence
  | .map _ => .ok .map

/-- The fault of a value where something else is expected. -/
def Node.mismatch (expected : String) (v : Node) : LoadError :=
  match v.found with
  | .error e => e
  | .ok f => .data (.wrongType f expected)

end Json

namespace Schema

variable {ρ : Type}

/-- The schema of the values that are not null. -/
def core : Schema ρ → Schema ρ
  | optional s => s.core
  | s => s

/-- Whether a value may be null. -/
def isOptional : Schema ρ → Bool
  | optional _ => true
  | _ => false

/-! ## Decoding -/

/-- The fault of a value of another kind. A variant of another kind is no value at all. -/
def refuse (env : ρ → RecordSpec ρ) (s : Schema ρ) (v : Node) : LoadError :=
  match s.core with
  | .number => v.mismatch "u32"
  | .text => v.mismatch "a string"
  | .list _ => v.mismatch "a sequence"
  | .record r => v.mismatch s!"struct {(env r).title}"
  | .variant _ | .optional _ => .malformed

/-- A number has to be an integer of 32 bits. -/
def decodeNumber : Found → Except LoadError Datum
  | .integer n => if 0 ≤ n ∧ n.toNat < UInt32.size then .ok (.number n.toNat.toUInt32) else .error (.data (.outOfRange n))
  | f => .error (.data (.wrongType f "u32"))

/-- The position of a name among the variants. -/
def decodeName (names : List String) (gs : Glyphs) : Except LoadError Nat := do
  let name ← gs.value
  match names.idxOf? (String.ofList name) with
  | some i => .ok i
  | none => .error (.data (.unknownVariant (String.ofList name) names))

/-- A variant as an object: its name is the only key, and the value is null. -/
def decodeTagged (names : List String) : List (Glyphs × Node) → Except LoadError Datum
  | [] => .error .malformed
  | (key, v) :: ms => do
    let i ← decodeName names key
    match v, ms with
    | .null, [] => .ok (.variant i)
    | .null, _ :: _ => .error .malformed
    | v, _ => .error (v.mismatch "unit")

/-- The fields of a record from the `i`th on when the list of its fields has ended: each has to fall back. -/
def fallBack (spec : RecordSpec ρ) : Nat → List (FieldSpec ρ) → Except LoadError (List Datum)
  | _, [] => .ok []
  | i, f :: fs =>
    match f.fallback? with
    | some d => (fallBack spec (i + 1) fs).map (d :: ·)
    | none => .error (.data (.tooShort i spec.title spec.fields.length))

/-- What is done with a member of an object by its name: a field of the record is taken, unless it was read before, and
anything else is passed over. -/
def onMember {α : Type} (fields : List (FieldSpec ρ)) (values : List (Option Datum)) (name : List Char)
    (take : Nat → FieldSpec ρ → Except LoadError α) (pass : Except LoadError α) : Except LoadError α :=
  match fields.findIdx? (·.key = String.ofList name), fields.find? (·.key = String.ofList name) with
  | some i, some f => if (values[i]?.join).isSome then .error (.data (.duplicateField f.key)) else take i f
  | _, _ => pass

variable (env : ρ → RecordSpec ρ)

mutual

/-- The data of a value in which at most `n` containers may be open at once. -/
def decode (n : Nat) (s : Schema ρ) : Node → Except LoadError Datum
  | .null => if s.isOptional then .ok .absent else .error (refuse env s .null)
  | .bool b => .error (refuse env s (.bool b))
  | .number negative f =>
    match s.core with
    | .number => f.found negative >>= decodeNumber
    | _ => .error (refuse env s (.number negative f))
  | .string gs =>
    match s.core with
    | .text => gs.value.map fun cs => .text (String.ofList cs)
    | .variant names => (decodeName names gs).map .variant
    | _ => .error (refuse env s (.string gs))
  | .list vs =>
    match s.core, n with
    | .list s, n + 1 => (decodeItems n s vs).map .list
    | .record r, n + 1 => (decodePositions n (env r) 0 (env r).fields vs).map .record
    | .list _, 0 | .record _, 0 => .error .malformed
    | _, _ => .error (refuse env s (.list vs))
  | .map ms =>
    match s.core, n with
    | .record r, n + 1 => (decodeMembers n (env r).fields ((env r).fields.map fun _ => none) ms).map .record
    | .variant names, _ + 1 => decodeTagged names ms
    | .record _, 0 => .error .malformed
    | _, _ => .error (refuse env s (.map ms))

def decodeItems (n : Nat) (s : Schema ρ) : List Node → Except LoadError (List Datum)
  | [] => .ok []
  | v :: vs => do
    let d ← decode n s v
    let ds ← decodeItems n s vs
    .ok (d :: ds)

/-- The fields of a record from the `i`th on, given by position. -/
def decodePositions (n : Nat) (spec : RecordSpec ρ) (i : Nat) (fields : List (FieldSpec ρ)) :
    List Node → Except LoadError (List Datum)
  | [] => fallBack spec i fields
  | v :: vs =>
    match fields with
    | [] => .error .malformed
    | f :: fs => do
      let d ← decode n f.schema v
      let ds ← decodePositions n spec (i + 1) fs vs
      .ok (d :: ds)

/-- The members of a record, of which `values` were read before. -/
def decodeMembers (n : Nat) (fields : List (FieldSpec ρ)) (values : List (Option Datum)) :
    List (Glyphs × Node) → Except LoadError (List Datum)
  | [] => complete fields values
  | (key, v) :: ms => do
    let name ← key.value
    onMember fields values name
      (fun i f => do
        let d ← decode n f.schema v
        decodeMembers n fields (values.set i (some d)) ms)
      (decodeMembers n fields values ms)

end

/-! ## Values of another kind -/

/-- Whether a value is of the kind that is expected. -/
def takes (s : Schema ρ) (v : Node) : Bool :=
  match s.core, v with
  | _, .null => s.isOptional
  | .number, .number .. | .text, .string _ | .variant _, .string _ | .variant _, .map _ => true
  | .list _, .list _ | .record _, .list _ | .record _, .map _ => true
  | _, _ => false

variable {env} {n : Nat}

theorem core_ne_optional (s s' : Schema ρ) : s.core ≠ .optional s' := by
  induction s with
  | optional s ih => exact ih
  | _ => exact nofun

theorem core_core (s : Schema ρ) : s.core.core = s.core := by
  induction s with
  | optional s ih => exact ih
  | _ => rfl

theorem takes_core {s : Schema ρ} {v : Node} (h : v = .null → s.isOptional = false) : s.core.takes v = s.takes v := by
  cases v with
  | null =>
    cases s with
    | optional s => cases h rfl
    | _ => rfl
  | bool b => simp only [takes.eq_def]
  | _ =>
    simp only [takes.eq_def, core_core]
    cases s.core <;> rfl

section

variable {s s' : Schema ρ} {r : ρ} {names : List String} {vs : List Node} {ms : List (Glyphs × Node)}

theorem decode_list (h : s.core = .list s') : decode env (n + 1) s (.list vs) = (decodeItems env n s' vs).map .list := by
  rw [decode.eq_def]
  simp only [h]

theorem decode_positions (h : s.core = .record r) :
    decode env (n + 1) s (.list vs) = (decodePositions env n (env r) 0 (env r).fields vs).map .record := by
  rw [decode.eq_def]
  simp only [h]

theorem decode_members (h : s.core = .record r) :
    decode env (n + 1) s (.map ms) =
      (decodeMembers env n (env r).fields ((env r).fields.map fun _ => none) ms).map .record := by
  rw [decode.eq_def]
  simp only [h]

theorem decode_tagged (h : s.core = .variant names) : decode env (n + 1) s (.map ms) = decodeTagged names ms := by
  rw [decode.eq_def]
  simp only [h]

/-- Where no container may be opened, none is read. -/
theorem decode_zero_list (h : s.takes (.list vs) = true) : decode env 0 s (.list vs) = .error .malformed := by
  rw [decode.eq_def]
  cases hs : s.core <;> simp_all [takes]

theorem decode_zero_map (h : s.takes (.map ms) = true) : decode env 0 s (.map ms) = .error .malformed := by
  rw [decode.eq_def]
  cases hs : s.core <;> simp_all [takes, refuse]

end

theorem decode_of_not_takes {s : Schema ρ} {v : Node} (h : s.takes v = false) : decode env n s v = .error (refuse env s v) := by
  cases v with
  | null =>
    rw [takes] at h
    simp_all [decode]
  | bool b => rw [decode]
  | number negative f =>
    rw [decode]
    split <;> simp_all [takes]
  | string gs =>
    rw [decode]
    split <;> simp_all [takes]
  | list vs =>
    rw [decode.eq_def]
    dsimp only
    split <;> simp_all [takes]
  | map ms =>
    rw [decode.eq_def]
    dsimp only
    split <;> simp_all [takes]

/-! ## Members -/

theorem onMember_map {α β : Type} {fields : List (FieldSpec ρ)} {values : List (Option Datum)} {name : List Char}
    {take : Nat → FieldSpec ρ → Except LoadError α} {pass : Except LoadError α} (f : α → β) :
    (onMember fields values name take pass).map f = onMember fields values name (fun i s => (take i s).map f) (pass.map f) := by
  rw [onMember, onMember]
  cases fields.findIdx? (·.key = String.ofList name)
  · rfl
  · cases fields.find? (·.key = String.ofList name)
    · rfl
    · simp only
      split <;> rfl

theorem onMember_eq_ok {α : Type} {fields : List (FieldSpec ρ)} {values : List (Option Datum)} {name : List Char}
    {take : Nat → FieldSpec ρ → Except LoadError α} {pass : Except LoadError α} {a : α}
    (h : onMember fields values name take pass = .ok a) : (∃ i f, take i f = .ok a) ∨ pass = .ok a := by
  rw [onMember] at h
  split at h
  · rename_i i f _ _
    split at h
    · cases h
    · exact .inl ⟨i, f, h⟩
  · exact .inr h

end Schema

end StageRig
