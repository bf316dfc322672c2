import StoredMatrix.Proofs.CheckedComparison
import StoredMatrix.Workspace

/-!
# Runs of a workspace

A step that ends with an answer stores one matrix, which it describes, or leaves the workspace as it was.
What such a step keeps, a run keeps: a name stands for a matrix that constructors and conversions
yield, and for the same one until a step stores another under it. Nothing goes wrong in a run if there is
room for the dense forms of all matrices that it builds.
-/

namespace StoredMatrix

/-! ## Steps and answers -/

/-- The answer of a step that could not be taken. -/
def Answer.IsRefusal : Answer → Prop
  | refused _ | unknown _ => True
  | _ => False

namespace Step

/-- The name that a step gives to a matrix. -/
def target? : Step → Option String
  | make name _ | convert name _ _ => some name
  | ask _ _ | compare _ _ _ | group _ => none

/-- All inputs fit into memory. -/
def InMemory : Step → Prop
  | make _ construction => ∀ n ∈ construction.inputSizes, n < inputLimit
  | _ => True

/-- There is room for the dense form of the matrix that is built. -/
def Roomy : Step → Prop
  | make _ construction => ∀ m, construction.build = .ok m → m.dims.Allocatable
  | _ => True

end Step

namespace Workspace

variable {w next last : Workspace} {s : Step} {steps : List Step} {a : Answer} {answers : List Answer}
  {name other : String} {m : Matrix}

@[simp] theorem find?_store_self : (w.store name m).find? name = some m := by
  rw [find?, store, List.lookup_cons, beq_self_eq_true]

theorem find?_store_of_ne (h : other ≠ name) : (w.store name m).find? other = w.find? other := by
  rw [find?, store, List.lookup_cons, beq_false_of_ne h]
  rfl

/-- A property of all matrices that can be found. -/
def All (P : Matrix → Prop) (w : Workspace) : Prop := ∀ name m, w.find? name = some m → P m

section All

variable {P : Matrix → Prop}

theorem All.empty : Workspace.empty.All P := by
  intro _ _ h
  cases h

theorem All.store (hw : w.All P) (hm : P m) : (w.store name m).All P := by
  intro other n hn
  by_cases h : other = name
  · rw [h, find?_store_self] at hn
    exact Option.some.inj hn ▸ hm
  · rw [find?_store_of_ne h] at hn
    exact hw other n hn

end All

/-! ## What a step can do -/

/-- A matrix that a step stores: what it builds, or what it makes of a matrix that is stored already. -/
inductive Stores (w : Workspace) : Step → String → Matrix → Prop
  | make {name : String} {c : Construction} {m : Matrix} : c.build = .ok m → Stores w (.make name c) name m
  | convert {name source : String} {c : Conversion} {m n : Matrix} :
    w.find? source = some m → c.checkedApply m = .ok (.ok n) → Stores w (.convert name source c) name n

theorem Stores.target?_eq (h : w.Stores s name m) : s.target? = some name := by
  cases h with
  | make _ => rfl
  | convert _ _ => rfl

theorem keep_cases (w : Workspace) (name : String) (r : Except Error Matrix) :
    (∃ m, r = .ok m ∧ w.keep name r = (.described m, w.store name m)) ∨
      ∃ e, w.keep name r = (.refused e, w) := by
  cases r with
  | ok m => exact .inl ⟨m, rfl, rfl⟩
  | error e => exact .inr ⟨e, rfl⟩

/-- Everything that can come of a step. -/
theorem step_cases (h : w.step s = .ok (a, next)) :
    (∃ name m, w.Stores s name m ∧ a = .described m ∧ next = w.store name m) ∨
      (a.IsRefusal ∨ s.target? = none) ∧ next = w := by
  cases s with
  | make name c =>
      have hkeep := Except.ok.inj h
      rcases w.keep_cases name c.build with ⟨m, hm, hstored⟩ | ⟨e, hrefused⟩
      · obtain ⟨rfl, rfl⟩ := Prod.mk.inj (hstored.symm.trans hkeep)
        exact .inl ⟨name, m, .make hm, rfl, rfl⟩
      · obtain ⟨rfl, rfl⟩ := Prod.mk.inj (hrefused.symm.trans hkeep)
        exact .inr ⟨.inl trivial, rfl⟩
  | convert name source c =>
      rw [step] at h
      split at h
      · obtain ⟨rfl, rfl⟩ := Prod.mk.inj (Except.ok.inj h)
        exact .inr ⟨.inl trivial, rfl⟩
      · rename_i m hfind
        obtain ⟨r, hr, hkeep⟩ := map_eq_ok.mp h
        rcases w.keep_cases name r with ⟨n, hn, hstored⟩ | ⟨e, hrefused⟩
        · obtain ⟨rfl, rfl⟩ := Prod.mk.inj (hstored.symm.trans hkeep)
          exact .inl ⟨name, n, .convert hfind (hn ▸ hr), rfl, rfl⟩
        · obtain ⟨rfl, rfl⟩ := Prod.mk.inj (hrefused.symm.trans hkeep)
          exact .inr ⟨.inl trivial, rfl⟩
  | ask source query =>
      rw [step] at h
      split at h
      · obtain ⟨rfl, rfl⟩ := Prod.mk.inj (Except.ok.inj h)
        exact .inr ⟨.inr rfl, rfl⟩
      · obtain ⟨_, _, hanswer⟩ := map_eq_ok.mp h
        exact .inr ⟨.inr rfl, (Prod.mk.inj hanswer).2.symm⟩
  | compare left right relation =>
      rw [step] at h
      split at h
      · exact .inr ⟨.inr rfl, (Prod.mk.inj (Except.ok.inj h)).2.symm⟩
      · exact .inr ⟨.inr rfl, (Prod.mk.inj (Except.ok.inj h)).2.symm⟩
      · obtain ⟨_, _, hanswer⟩ := map_eq_ok.mp h
        exact .inr ⟨.inr rfl, (Prod.mk.inj hanswer).2.symm⟩
  | group sources =>
      rw [step] at h
      split at h
      · exact .inr ⟨.inr rfl, (Prod.mk.inj (Except.ok.inj h)).2.symm⟩
      · exact .inr ⟨.inr rfl, (Prod.mk.inj (Except.ok.inj h)).2.symm⟩

/-- A step that could not be taken leaves the workspace as it was. -/
theorem step_of_isRefusal (h : w.step s = .ok (a, next)) (ha : a.IsRefusal) : next = w := by
  rcases step_cases h with ⟨_, m, _, rfl, _⟩ | ⟨_, rfl⟩
  · exact ha.elim
  · rfl

/-- A step changes nothing but the matrix of the name that it gives. -/
theorem step_find?_of_ne (h : w.step s = .ok (a, next)) (hname : s.target? ≠ some name) :
    next.find? name = w.find? name := by
  rcases step_cases h with ⟨other, m, hstores, _, rfl⟩ | ⟨_, rfl⟩
  · refine find?_store_of_ne ?_
    rintro rfl
    exact hname hstores.target?_eq
  · rfl

/-! ## What a step keeps -/

theorem Stores.reachable (hw : w.All Matrix.ReachableInMemory) (hs : s.InMemory) (h : w.Stores s name m) :
    m.ReachableInMemory := by
  cases h with
  | make hbuild => exact .build _ hs hbuild
  | convert hfind happly =>
      have hsource := hw _ _ hfind
      exact hsource.convert _ (hsource.wellFormed.apply_of_checked hsource.count_lt happly)

theorem Stores.allocatable (hw : w.All Matrix.ReachableInMemory) (hroom : w.All (·.dims.Allocatable))
    (hs : s.Roomy) (h : w.Stores s name m) : m.dims.Allocatable := by
  cases h with
  | make hbuild => exact hs _ hbuild
  | convert hfind happly =>
      have hsource := hw _ _ hfind
      rw [Conversion.dims_apply (hsource.wellFormed.apply_of_checked hsource.count_lt happly)]
      exact hroom _ _ hfind

theorem step_reachable (hw : w.All Matrix.ReachableInMemory) (hs : s.InMemory)
    (h : w.step s = .ok (a, next)) : next.All Matrix.ReachableInMemory := by
  rcases step_cases h with ⟨_, m, hstores, _, rfl⟩ | ⟨_, rfl⟩
  · exact hw.store (hstores.reachable hw hs)
  · exact hw

theorem step_allocatable (hw : w.All Matrix.ReachableInMemory) (hroom : w.All (·.dims.Allocatable))
    (hs : s.Roomy) (h : w.step s = .ok (a, next)) : next.All (·.dims.Allocatable) := by
  rcases step_cases h with ⟨_, m, hstores, _, rfl⟩ | ⟨_, rfl⟩
  · exact hroom.store (hstores.allocatable hw hroom hs)
  · exact hroom

/-! ## Runs -/

theorem run_cons_eq_ok : w.run (s :: steps) = .ok (answers, last) ↔
    ∃ a next rest, w.step s = .ok (a, next) ∧ next.run steps = .ok (rest, last) ∧ answers = a :: rest := by
  rw [run, bind_eq_ok]
  constructor
  · rintro ⟨⟨a, next⟩, hstep, h⟩
    obtain ⟨⟨rest, end'⟩, hrun, h⟩ := bind_eq_ok.mp h
    obtain ⟨rfl, rfl⟩ := Prod.mk.inj (pure_eq_ok.mp h)
    exact ⟨a, next, rest, hstep, hrun, rfl⟩
  · rintro ⟨a, next, rest, hstep, hrun, rfl⟩
    exact ⟨(a, next), hstep, bind_eq_ok.mpr ⟨(rest, last), hrun, rfl⟩⟩

/-- What every step of a run keeps holds at its end. -/
theorem run_keeps {I : Workspace → Prop}
    (hstep : ∀ s ∈ steps, ∀ w a next, I w → w.step s = .ok (a, next) → I next) (hw : I w)
    (h : w.run steps = .ok (answers, last)) : I last := by
  induction steps generalizing w answers with
  | nil =>
      obtain ⟨rfl, rfl⟩ := Prod.mk.inj (Except.ok.inj h)
      exact hw
  | cons s steps ih =>
      obtain ⟨a, next, rest, hs, hrun, rfl⟩ := run_cons_eq_ok.mp h
      exact ih (fun s' hs' => hstep s' (List.mem_cons_of_mem s hs'))
        (hstep s List.mem_cons_self w a next hw hs) hrun

/-- Every matrix that is stored at the end of a run is one that constructors and conversions yield. -/
theorem run_reachable (hs : ∀ s ∈ steps, s.InMemory) (hw : w.All Matrix.ReachableInMemory)
    (h : w.run steps = .ok (answers, last)) : last.All Matrix.ReachableInMemory :=
  run_keeps (fun s hmem _ _ _ hw hstep => step_reachable hw (hs s hmem) hstep) hw h

theorem run_find?_of_forall_ne (hs : ∀ s ∈ steps, s.target? ≠ some name)
    (h : w.run steps = .ok (answers, last)) : last.find? name = w.find? name :=
  run_keeps (I := (·.find? name = w.find? name))
    (fun s hmem _ _ _ hv hstep => (step_find?_of_ne hstep (hs s hmem)).trans hv) rfl h

/-- A matrix that is stored at the end was stored before, or one of the answers describes it. -/
theorem run_find?_eq_some (h : w.run steps = .ok (answers, last)) (hm : last.find? name = some m) :
    w.find? name = some m ∨ .described m ∈ answers := by
  induction steps generalizing w answers with
  | nil =>
      obtain ⟨rfl, rfl⟩ := Prod.mk.inj (Except.ok.inj h)
      exact .inl hm
  | cons s steps ih =>
      obtain ⟨a, next, rest, hs, hrun, rfl⟩ := run_cons_eq_ok.mp h
      rcases ih hrun with hnext | hmem
      · rcases step_cases hs with ⟨other, n, _, rfl, rfl⟩ | ⟨_, rfl⟩
        · by_cases hname : name = other
          · rw [hname, find?_store_self] at hnext
            exact .inr (Option.some.inj hnext ▸ List.mem_cons_self)
          · exact .inl (find?_store_of_ne hname ▸ hnext)
        · exact .inl hnext
      · exact .inr (List.mem_cons_of_mem a hmem)

theorem length_run (h : w.run steps = .ok (answers, last)) : answers.length = steps.length := by
  induction steps generalizing w answers with
  | nil =>
      obtain ⟨rfl, rfl⟩ := Prod.mk.inj (Except.ok.inj h)
      rfl
  | cons s steps ih =>
      obtain ⟨a, next, rest, _, hrun, rfl⟩ := run_cons_eq_ok.mp h
      exact congrArg Nat.succ (ih hrun)

/-! ## Room for everything -/

theorem exists_answer (hm : m.ReachableInMemory) (query : Query) : ∃ a, answer m query = .ok a := by
  have hwf := hm.wellFormed
  have hn := hm.count_lt
  cases query with
  | describe => exact ⟨_, rfl⟩
  | get row col => exact ⟨_, map_eq_ok.mpr ⟨_, hwf.checkedGet_eq hn row col, rfl⟩⟩
  | entries => exact ⟨_, map_eq_ok.mpr ⟨_, hwf.checkedEntries_eq hn, rfl⟩⟩
  | display precision => exact ⟨_, map_eq_ok.mpr ⟨_, hwf.checkedDisplay_eq hn precision, rfl⟩⟩

theorem exists_judge {n : Matrix} (hm : m.ReachableInMemory) (hn : n.ReachableInMemory)
    (hroom : m.dims.Allocatable) (relation : Relation) : ∃ a, judge m n relation = .ok a := by
  cases relation with
  | structEq => exact ⟨_, rfl⟩
  | fuzzyEq tolerance => exact ⟨_, rfl⟩
  | mathsEq tolerance =>
      exact ⟨_, map_eq_ok.mpr ⟨_, hm.checkedMathsEq_of_room hn (.of_allocatable hroom), rfl⟩⟩
  | conformant =>
      rw [judge]
      split
      · exact ⟨_, rfl⟩
      · exact ⟨_, rfl⟩

theorem exists_step (hw : w.All Matrix.ReachableInMemory) (hroom : w.All (·.dims.Allocatable)) (s : Step) :
    ∃ a next, w.step s = .ok (a, next) := by
  cases s with
  | make name c => exact ⟨_, _, rfl⟩
  | convert name source c =>
      rw [step]
      split
      · exact ⟨_, _, rfl⟩
      · rename_i m hfind
        rw [(hw _ _ hfind).wellFormed.checkedApply_of_allocatable (hroom _ _ hfind)]
        exact ⟨_, _, rfl⟩
  | ask source query =>
      rw [step]
      split
      · exact ⟨_, _, rfl⟩
      · rename_i m hfind
        obtain ⟨a, ha⟩ := exists_answer (hw _ _ hfind) query
        exact ⟨a, w, map_eq_ok.mpr ⟨a, ha, rfl⟩⟩
  | compare left right relation =>
      rw [step]
      split
      · exact ⟨_, _, rfl⟩
      · exact ⟨_, _, rfl⟩
      · rename_i hleft hright
        obtain ⟨a, ha⟩ := exists_judge (hw _ _ hleft) (hw _ _ hright) (hroom _ _ hleft) relation
        exact ⟨a, w, map_eq_ok.mpr ⟨a, ha, rfl⟩⟩
  | group sources =>
      rw [step]
      split
      · exact ⟨_, _, rfl⟩
      · exact ⟨_, _, rfl⟩

/-- A run answers all steps if there is room for the dense forms of the matrices that it builds. -/
theorem exists_run (hs : ∀ s ∈ steps, s.InMemory ∧ s.Roomy) (hw : w.All Matrix.ReachableInMemory)
    (hroom : w.All (·.dims.Allocatable)) : ∃ answers last, w.run steps = .ok (answers, last) := by
  induction steps generalizing w with
  | nil => exact ⟨_, _, rfl⟩
  | cons s steps ih =>
      obtain ⟨hmemory, hroomy⟩ := hs s List.mem_cons_self
      obtain ⟨a, next, hstep⟩ := exists_step hw hroom s
      obtain ⟨rest, last, hrun⟩ := ih (fun s' hs' => hs s' (List.mem_cons_of_mem s hs'))
        (step_reachable hw hmemory hstep) (step_allocatable hw hroom hroomy hstep)
      exact ⟨a :: rest, last, run_cons_eq_ok.mpr ⟨a, next, rest, hstep, hrun, rfl⟩⟩

/-- What such a run stores is described by its answers, and is what constructors and conversions yield. -/
theorem run_empty (hs : ∀ s ∈ steps, s.InMemory ∧ s.Roomy) : ∃ answers last,
    empty.run steps = .ok (answers, last) ∧ answers.length = steps.length ∧
      ∀ name m, last.find? name = some m → m.ReachableInMemory ∧ .described m ∈ answers := by
  obtain ⟨answers, last, h⟩ := exists_run hs All.empty All.empty
  refine ⟨answers, last, h, length_run h, fun name m hm => ⟨?_, ?_⟩⟩
  · exact run_reachable (fun s hmem => (hs s hmem).1) All.empty h name m hm
  · rcases run_find?_eq_some h hm with hfind | hmem
    · cases hfind
    · exact hmem

/-- Without room the same run has no answers, not even to the steps that go well. -/
example : empty.run [
    .make "tall" (.real (.sparseBuffers [0, 1] [0] [.one] ⟨0xffffffffffffffff, 1⟩)),
    .ask "tall" (.get 0 0),
    .compare "tall" "tall" (.mathsEq .default)] = .error .capacity := rfl

end Workspace

end StoredMatrix
