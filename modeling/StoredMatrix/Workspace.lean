import StoredMatrix.Matrix.Checked

/-!
# Workspaces

A workspace holds matrices by name. A step builds or converts a matrix and stores it, or asks
something of stored matrices; a step that fails leaves the workspace as it was. A run goes on after a
refusal, but it ends without answers if something goes wrong on the way to one.
-/

namespace StoredMatrix

/-- Matrices by name, the newest first. -/
structure Workspace where
  matrices : List (String × Matrix)

/-- What can be asked of one matrix. -/
inductive Query
  | describe
  | get (row col : Nat)
  | entries
  | display (precision : Option Nat)

/-- What can be asked of two matrices. -/
inductive Relation
  | structEq
  | fuzzyEq (tolerance : Tolerance)
  | mathsEq (tolerance : Tolerance)
  | conformant

/-- A step of work; matrices are given by their names. -/
inductive Step
  | make (name : String) (construction : Construction)
  | convert (name source : String) (conversion : Conversion)
  | ask (source : String) (query : Query)
  | compare (left right : String) (relation : Relation)
  /-- Sorts matrices into classes of structurally equal ones. -/
  | group (sources : List String)

/-- What a step answers. -/
inductive Answer
  | described (m : Matrix)
  | entry (value : Option Scalar)
  | entries (rows : Grid Scalar)
  | text (text : String)
  | truth (holds : Bool)
  /-- For each matrix the position of the first equal one, and the number of classes. -/
  | groups (firsts : List Nat) (distinct : Nat)
  | refused (error : Error)
  | unknown (name : String)

/-- For each matrix, the position of the first that is structurally equal to it. -/
def firstEqual (ms : List Matrix) : List Nat := ms.map fun m => ms.findIdx m.structEq

namespace Workspace

/-- The workspace that holds nothing. -/
def empty : Workspace := ⟨[]⟩

/-- The matrix of a name. -/
def find? (w : Workspace) (name : String) : Option Matrix := w.matrices.lookup name

/-- The workspace in which a name stands for the given matrix. -/
def store (w : Workspace) (name : String) (m : Matrix) : Workspace := ⟨(name, m) :: w.matrices⟩

/-- The matrices of several names, or the first name that stands for none. -/
def findAll (w : Workspace) : List String → Except String (List Matrix)
  | [] => .ok []
  | name :: names =>
    match w.find? name with
    | none => .error name
    | some m => (m :: ·) <$> w.findAll names

/-- The answer to a question about one matrix. -/
def answer (m : Matrix) : Query → Except Fault Answer
  | .describe => .ok (.described m)
  | .get row col => .entry <$> m.checkedGet row col
  | .entries => .entries <$> m.checkedEntries
  | .display precision => .text <$> m.checkedDisplay precision

/-- The answer to a question about two matrices. -/
def judge (a b : Matrix) : Relation → Except Fault Answer
  | .structEq => .ok (.truth (a.structEq b))
  | .fuzzyEq tolerance => .ok (.truth (a.fuzzyEq tolerance b))
  | .mathsEq tolerance => .truth <$> a.checkedMathsEq tolerance b
  | .conformant =>
    match a.ensureConformant b with
    | .ok () => .ok (.truth true)
    | .error e => .ok (.refused e)

/-- Stores a matrix that could be built, under a name. -/
def keep (w : Workspace) (name : String) : Except Error Matrix → Answer × Workspace
  | .ok m => (.described m, w.store name m)
  | .error e => (.refused e, w)

/-- The answer to a step, and the workspace after it. -/
def step (w : Workspace) : Step → Except Fault (Answer × Workspace)
  | .make name construction => .ok (w.keep name construction.build)
  | .convert name source conversion =>
    match w.find? source with
    | none => .ok (.unknown source, w)
    | some m => w.keep name <$> conversion.checkedApply m
  | .ask source query =>
    match w.find? source with
    | none => .ok (.unknown source, w)
    | some m => (·, w) <$> answer m query
  | .compare left right relation =>
    match w.find? left, w.find? right with
    | none, _ => .ok (.unknown left, w)
    | some _, none => .ok (.unknown right, w)
    | some a, some b => (·, w) <$> judge a b relation
  | .group sources =>
    match w.findAll sources with
    | .error name => .ok (.unknown name, w)
    | .ok ms =>
      let firsts := firstEqual ms
      .ok (.groups firsts firsts.eraseDups.length, w)

/-- The answers to a run of steps, and the workspace after it. -/
def run (w : Workspace) : List Step → Except Fault (List Answer × Workspace)
  | [] => .ok ([], w)
  | s :: steps => do
    let (a, next) ← w.step s
    let (answers, last) ← next.run steps
    return (a :: answers, last)

end Workspace

end StoredMatrix
