/-
  StageRig.Traced — computations that may fail and that report on the way.

  A `Traced ε α` is an outcome together with the notes made before it was known. A
  failure keeps the notes made so far. The notes never decide anything: the outcome of
  a sequence is the sequence of the outcomes (`result_bind`).
-/

namespace StageRig

inductive Level where
  | trace
  | debug
  | info
  | warn
  | error
  deriving DecidableEq, Repr

def Level.name : Level → String
  | .trace => "TRACE"
  | .debug => "DEBUG"
  | .info => "INFO"
  | .warn => "WARN"
  | .error => "ERROR"

structure Note where
  level : Level
  text : String
  deriving DecidableEq, Repr

structure Traced (ε α : Type) where
  notes : List Note
  result : Except ε α

namespace Traced

variable {ε ε' α β : Type}

instance : Monad (Traced ε) where
  pure a := ⟨[], .ok a⟩
  bind x f :=
    match x.result with
    | .error e => ⟨x.notes, .error e⟩
    | .ok a => ⟨x.notes ++ (f a).notes, (f a).result⟩

instance : MonadExcept ε (Traced ε) where
  throw e := ⟨[], .error e⟩
  tryCatch x f :=
    match x.result with
    | .error e => ⟨x.notes ++ (f e).notes, (f e).result⟩
    | .ok _ => x

def note (level : Level) (text : String) : Traced ε Unit := ⟨[⟨level, text⟩], .ok ()⟩

def ofExcept (x : Except ε α) : Traced ε α := ⟨[], x⟩

def mapError (f : ε → ε') (x : Traced ε α) : Traced ε' α := ⟨x.notes, x.result.mapError f⟩

@[simp] theorem result_pure (a : α) : (pure a : Traced ε α).result = .ok a := rfl

@[simp] theorem result_throw (e : ε) : (throw e : Traced ε α).result = .error e := rfl

@[simp] theorem result_note (level : Level) (text : String) : (note level text : Traced ε Unit).result = .ok () := rfl

@[simp] theorem result_ofExcept (x : Except ε α) : (ofExcept x).result = x := rfl

@[simp] theorem result_mapError (f : ε → ε') (x : Traced ε α) : (x.mapError f).result = x.result.mapError f := rfl

@[simp] theorem result_bind (x : Traced ε α) (f : α → Traced ε β) :
    (x >>= f).result = x.result >>= fun a => (f a).result := by
  rcases x with ⟨ns, e | a⟩ <;> rfl

@[simp] theorem result_map (f : α → β) (x : Traced ε α) : (f <$> x).result = f <$> x.result := by
  rcases x with ⟨ns, e | a⟩ <;> rfl

end Traced

end StageRig
