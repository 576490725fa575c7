/-
  StageRig.Job — work on a file tree that may fail and that reports on the way.

  A failure keeps what was done to the tree and what was reported before it. Reports are
  of any type: notes, or notes among other things.
-/

import StageRig.FileTree
import StageRig.Traced

namespace StageRig

/-- What is left of the tree after some work, and what came of the work. -/
structure Ran (ω ε α : Type) where
  tree : FileTree
  log : List ω
  result : Except ε α

def Job (ω ε α : Type) := FileTree → Ran ω ε α

namespace Job

variable {ω ω' ε ε' α β : Type}

instance : Monad (Job ω ε) where
  pure a := fun t => ⟨t, [], .ok a⟩
  bind x f := fun t =>
    let r := x t
    match r.result with
    | .error e => ⟨r.tree, r.log, .error e⟩
    | .ok a =>
      let s := f a r.tree
      ⟨s.tree, r.log ++ s.log, s.result⟩

def fail (e : ε) : Job ω ε α := fun t => ⟨t, [], .error e⟩

def report (w : ω) : Job ω ε Unit := fun t => ⟨t, [w], .ok ()⟩

/-- Work whose reports and errors are seen as others. -/
def as (f : ω → ω') (g : ε → ε') (x : Job ω ε α) : Job ω' ε' α := fun t =>
  let r := x t
  ⟨r.tree, r.log.map f, r.result.mapError g⟩

/-- A computation that leaves the tree alone. -/
def ofTraced (x : Traced ε α) : Job Note ε α := fun t => ⟨t, x.notes, x.result⟩

def ofExcept (x : Except ε α) : Job ω ε α := fun t => ⟨t, [], x⟩

def makeDirs (path : String) : Job ω FileError Unit := fun t =>
  let (made, result) := t.makeDirs path
  ⟨made, [], result⟩

def save (path : String) (content : List UInt8) : Job ω FileError Unit := fun t =>
  match t.save path content with
  | .ok written => ⟨written, [], .ok ()⟩
  | .error e => ⟨t, [], .error e⟩

def load (path : String) : Job ω FileError (List UInt8) := fun t => ⟨t, [], t.load path⟩

/-- Work whose failures are seen as others. -/
def mapError (g : ε → ε') (x : Job ω ε α) : Job ω ε' α := x.as id g

@[simp] theorem pure_apply (a : α) (t : FileTree) : (pure a : Job ω ε α) t = ⟨t, [], .ok a⟩ := rfl

@[simp] theorem fail_apply (e : ε) (t : FileTree) : (fail e : Job ω ε α) t = ⟨t, [], .error e⟩ := rfl

@[simp] theorem report_apply (w : ω) (t : FileTree) : (report w : Job ω ε Unit) t = ⟨t, [w], .ok ()⟩ := rfl

theorem bind_apply (x : Job ω ε α) (f : α → Job ω ε β) (t : FileTree) :
    (x >>= f) t =
      match (x t).result with
      | .error e => ⟨(x t).tree, (x t).log, .error e⟩
      | .ok a => ⟨(f a (x t).tree).tree, (x t).log ++ (f a (x t).tree).log, (f a (x t).tree).result⟩ := rfl

end Job

end StageRig
