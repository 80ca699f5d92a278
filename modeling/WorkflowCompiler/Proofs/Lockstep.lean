import WorkflowCompiler.CommandLine.Execution

/-!
What holds of all that is read. The code that reads files is the same for every reader, and all it does is to put
questions together. So a relation between computations that is kept when they are put together holds of everything
that is read, as soon as it holds of the questions.
-/

namespace WorkflowCompiler

/-- A relation between the computations of two monads that is kept when they are put together. -/
structure Lockstep (m n : Type → Type) [Monad m] [Monad n] where
  Rel : ∀ {α : Type}, m α → n α → Prop
  pure : ∀ {α : Type} (a : α), Rel (Pure.pure a : m α) (Pure.pure a : n α)
  bind : ∀ {α β : Type} {x : m α} {y : n α} {f : α → m β} {g : α → n β},
    Rel x y → (∀ a, Rel (f a) (g a)) → Rel (x >>= f) (y >>= g)

namespace Lockstep

variable {m n : Type → Type} [Monad m] [Monad n] (L : Lockstep m n) {α β : Type}

theorem ite {c : Prop} [Decidable c] {x x' : m α} {y y' : n α} (h : L.Rel x y) (h' : L.Rel x' y') :
    L.Rel (if c then x else x') (if c then y else y') := by
  split
  · exact h
  · exact h'

theorem mapM [LawfulMonad m] [LawfulMonad n] {f : α → m β} {g : α → n β} (h : ∀ a, L.Rel (f a) (g a))
    (xs : List α) : L.Rel (xs.mapM f) (xs.mapM g) := by
  induction xs with
  | nil =>
    rw [List.mapM_nil, List.mapM_nil]
    exact L.pure []
  | cons a r ih =>
    rw [List.mapM_cons, List.mapM_cons]
    exact L.bind (h a) fun _ => L.bind ih fun _ => L.pure _

/-- Two readers are asked what is where. -/
structure Shows (R : FileReader m) (R' : FileReader n) : Prop where
  kind? : ∀ p, L.Rel (R.kind? p) (R'.kind? p)
  below : ∀ p, L.Rel (R.below p) (R'.below p)

/-- Two readers are asked anything. -/
structure Answers (R : FileReader m) (R' : FileReader n) : Prop extends Shows L R R' where
  contents : ∀ p, L.Rel (R.contents p) (R'.contents p)
  location? : ∀ p, L.Rel (R.location? p) (R'.location? p)

variable {L} {R : FileReader m} {R' : FileReader n} {b : Bool}

namespace Shows

theorem exists? (h : L.Shows R R') (p : Path) : L.Rel (R.exists? p) (R'.exists? p) :=
  L.bind (h.kind? p) fun _ => L.pure _

theorem isFile (h : L.Shows R R') (p : Path) : L.Rel (R.isFile p) (R'.isFile p) :=
  L.bind (h.kind? p) fun _ => L.pure _

theorem isDirectory (h : L.Shows R R') (p : Path) : L.Rel (R.isDirectory p) (R'.isDirectory p) :=
  L.bind (h.kind? p) fun _ => L.pure _

theorem visit {go : Path → m (List Path)} {go' : Path → n (List Path)} (h : ∀ q, L.Rel (go q) (go' q))
    (isLast : Bool) (pattern : Glob.Pattern) (q : Path) (e : List String × FileKind) :
    L.Rel (Glob.visit b go isLast pattern q e) (Glob.visit b go' isLast pattern q e) := by
  unfold Glob.visit
  cases e.1.getLast? with
  | none => exact L.pure _
  | some name => exact L.ite (L.pure _) (L.ite (L.pure _) (h q))

theorem addFiles (h : L.Shows R R') (paths : List Path) (s : Glob.PathSet) :
    L.Rel (Glob.addFiles R paths s) (Glob.addFiles R' paths s) := by
  induction paths generalizing s with
  | nil => exact L.pure s
  | cons p r ih => exact L.bind (h.isFile p) fun isFile => ih _

variable [LawfulMonad m] [LawfulMonad n]

mutual

/-- To look for files no text is needed. -/
theorem search (h : L.Shows R R') : ∀ (patterns : List Glob.Pattern) (p : Path),
    L.Rel (Glob.search R b patterns p) (Glob.search R' b patterns p)
  | [], p => by
    rw [Glob.search, Glob.search]
    exact L.bind (h.kind? p) fun _ => L.pure _
  | pattern :: rest, p => by
    rw [Glob.search, Glob.search]
    refine L.bind (h.isDirectory p) fun isDirectory => ?_
    cases pattern.literal? with
    | some name =>
      have hnext (there : Bool) : L.Rel
          (if there then Glob.search R b rest (Glob.extend p name) else Pure.pure [])
          (if there then Glob.search R' b rest (Glob.extend p name) else Pure.pure []) :=
        L.ite (search h rest _) (L.pure _)
      exact L.ite (L.bind (L.pure _) hnext) (L.bind (h.exists? _) hnext)
    | none =>
      refine L.ite (L.pure _) (L.bind (h.below p) fun found => ?_)
      refine L.ite (searchDeep h rest p found) ?_
      refine L.bind (L.mapM (fun _ => search h rest _) _) fun special => ?_
      refine L.bind (L.mapM (fun e => ?_) _) fun parts => L.pure _
      exact visit (search h rest) _ _ _ e

theorem searchDeep (h : L.Shows R R') : ∀ (patterns : List Glob.Pattern) (p : Path)
    (found : List (List String × FileKind)),
    L.Rel (Glob.searchDeep R b patterns p found) (Glob.searchDeep R' b patterns p found)
  | [], p, found => by
    rw [Glob.searchDeep, Glob.searchDeep]
    exact L.pure _
  | next :: rest, p, found => by
    rw [Glob.searchDeep, Glob.searchDeep]
    refine L.bind (L.mapM (fun e => ?_) _) fun parts => L.pure _
    exact visit (search h rest) _ _ _ e

end

theorem addMatches (h : L.Shows R R') (patterns : List String) (s : Glob.PathSet) :
    L.Rel (Glob.addMatches R patterns s) (Glob.addMatches R' patterns s) := by
  induction patterns generalizing s with
  | nil => exact L.pure _
  | cons text r ih =>
    rw [Glob.addMatches, Glob.addMatches]
    cases Glob.PathPattern.ofText text with
    | error e => exact L.pure _
    | ok g =>
      refine L.bind (h.search g.names g.start) fun paths => ?_
      exact L.bind (h.addFiles paths s) fun s => ih s

theorem matchingFiles (h : L.Shows R R') (patterns : List String) :
    L.Rel (Glob.matchingFiles R patterns) (Glob.matchingFiles R' patterns) :=
  L.bind (h.addMatches patterns .empty) fun _ => L.pure _

end Shows

namespace Answers

theorem source (h : L.Answers R R') (p : Path) : L.Rel (Source.load R p) (Source.load R' p) := by
  refine L.bind (h.contents p) fun text => ?_
  cases text with
  | error e => exact L.pure _
  | ok text => exact L.pure _

theorem executable (h : L.Answers R R') (p : Path) :
    L.Rel (Executable.load R p) (Executable.load R' p) := by
  refine L.bind (h.source p) fun s => ?_
  cases s with
  | error e => exact L.pure _
  | ok s => exact L.pure _

theorem config (h : L.Answers R R') (p : Path) : L.Rel (Config.load R p) (Config.load R' p) := by
  refine L.bind (h.contents p) fun text => ?_
  cases text with
  | error e => exact L.pure _
  | ok text =>
    dsimp only
    cases Config.ofText text with
    | error e => exact L.pure _
    | ok c => exact L.pure _

theorem configOrDefault (h : L.Answers R R') (given : Option Path) :
    L.Rel (Config.loadOrDefault R given) (Config.loadOrDefault R' given) := by
  cases given with
  | some p => exact h.config p
  | none => exact L.bind (h.exists? _) fun _ => L.ite (h.config _) (L.pure _)

theorem candidates (h : L.Answers R R') (root : Executable) (home : Option Location)
    (paths : List Path) (c : Catalog) :
    L.Rel (Sources.addCandidates R root home paths c) (Sources.addCandidates R' root home paths c) := by
  induction paths generalizing c with
  | nil => exact L.pure _
  | cons p r ih =>
    refine L.bind (h.location? p) fun place => L.ite (ih c) (L.bind (h.executable p) fun loaded => ?_)
    cases loaded with
    | error e => exact L.pure _
    | ok e =>
      refine L.ite (L.pure _) ?_
      cases c.extend e with
      | error e => exact L.pure _
      | ok c => exact ih c

variable [LawfulMonad m] [LawfulMonad n]

theorem sources (h : L.Answers R R') (file : Path) (extra : List String) (configFile : Option Path) :
    L.Rel (Sources.load R file extra configFile) (Sources.load R' file extra configFile) := by
  refine L.bind (h.configOrDefault configFile) fun config => ?_
  cases config with
  | error e => exact L.pure _
  | ok config =>
    refine L.bind (h.executable file) fun root => ?_
    cases root with
    | error e => exact L.pure _
    | ok root =>
      refine L.bind (h.location? file) fun home => L.bind (h.matchingFiles _) fun paths => ?_
      cases paths with
      | error e => exact L.pure _
      | ok paths =>
        refine L.bind (h.candidates root home paths .empty) fun c => ?_
        cases c with
        | error e => exact L.pure _
        | ok c => exact L.pure _

theorem compileFiles (h : L.Answers R R') (file : Path) (paths : List String) (config : Option Path) :
    L.Rel (CommandLine.compileFiles R file paths config)
      (CommandLine.compileFiles R' file paths config) := by
  refine L.bind (h.sources file paths config) fun s => ?_
  cases s with
  | error e => exact L.pure _
  | ok s =>
    dsimp only
    cases s.candidates.compile s.root with
    | error e => exact L.pure _
    | ok a => exact L.pure _

end Answers

end Lockstep

end WorkflowCompiler
