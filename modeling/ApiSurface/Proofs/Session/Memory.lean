import ApiSurface.Proofs.Files.Paths
import ApiSurface.Proofs.KeyedList
import ApiSurface.Proofs.Project.Sorting
import ApiSurface.Session

/-!
# What a session remembers

The calls of a session are made one after the other, and files may change between any two of them.
A log says what each call returned. By the log, a file is remembered from its first analysis on
that had a result, until the memory is cleared (`Remembers.facts`), and further analyses of the
file change neither the session nor what they return (`Remembers.kept`).
-/

namespace ApiSurface.Session

/-! ### Calls -/

/-- A call. An analysis meets the files as they are when it is made. -/
inductive Call where
  | analyze (read : String → Option String) (path : String)
  | facts (path : String)
  | files
  | clear

/-- What a call returns. -/
inductive Reply where
  | analyzed (result : Except ReadFailure FileFacts)
  | facts (found? : Option FileFacts)
  | files (paths : List String)
  | cleared

def Call.isClear : Call → Bool
  | clear => true
  | _ => false

/-- Make a call. -/
def call (s : Session) : Call → Reply × Session
  | .analyze read path => ((s.analyzeFile read path).map .analyzed id)
  | .facts path => (.facts (s.remembered? path), s)
  | .files => (.files s.analyzedFiles, s)
  | .clear => (.cleared, s.clear)

/-- Calls with what they returned, one after the other. -/
abbrev Log := List (Call × Reply)

/-- Make calls one after the other. -/
def run (s : Session) : List Call → Log × Session
  | [] => ([], s)
  | c :: calls => ((s.call c).2.run calls).map ((c, (s.call c).1) :: ·) id

/-- The calls behind the last one that cleared the memory. -/
def sinceClear (log : Log) : Log := (log.reverse.takeWhile fun e => !e.1.isClear).reverse

/-- The facts of a file, where a call was an analysis of it that had a result. The path may be
written in another way there. -/
def resultFor? (s : Session) (path : String) : Call × Reply → Option FileFacts
  | (.analyze _ p, .analyzed (.ok facts)) =>
    if s.key p = s.key path ∧ s.handles p then some facts else none
  | _ => none

/-- The facts that the first analysis of a file since the memory was cleared gave. -/
def firstResult? (s : Session) (path : String) (log : Log) : Option FileFacts :=
  (sinceClear log).findSome? (s.resultFor? path)

variable {s : Session} {log : Log} {path : String} {facts : FileFacts}

theorem sinceClear_append (log : Log) (e : Call × Reply) :
    sinceClear (log ++ [e]) = if e.1.isClear then [] else sinceClear log ++ [e] := by
  rw [sinceClear, List.reverse_append, List.reverse_singleton, List.singleton_append,
    List.takeWhile_cons]
  cases e.1.isClear with
  | true => rfl
  | false => exact List.reverse_cons

theorem firstResult?_append (s : Session) (path : String) (log : Log) {e : Call × Reply}
    (he : e.1.isClear = false) :
    s.firstResult? path (log ++ [e]) = (s.firstResult? path log).or (s.resultFor? path e) := by
  rw [firstResult?, sinceClear_append, he, if_neg Bool.false_ne_true, List.findSome?_append,
    List.findSome?_singleton]
  rfl

/-! ### What a call does -/

/-- What an analysis can do: give facts that are remembered, pass over a file of another kind, fail,
or remember the facts of a text. -/
theorem analyzeFile_cases (s : Session) (read : String → Option String) (path : String) :
    (∃ facts, s.remembered? path = some facts ∧ s.analyzeFile read path = (.ok facts, s)) ∨
    (s.remembered? path = none ∧ s.handles path = false ∧ s.analyzeFile read path
      = (.ok (FileFacts.empty (s.shownPath path) otherLanguage), s)) ∨
    (s.remembered? path = none ∧ s.handles path ∧ read (Path.join s.base path) = none ∧
      s.analyzeFile read path = (.error ⟨Path.join s.base path⟩, s)) ∨
    ∃ text, s.remembered? path = none ∧ s.handles path ∧
      read (Path.join s.base path) = some text ∧
      s.analyzeFile read path = (.ok (s.factsOf path text),
        { s with memory := (s.key path, s.factsOf path text) :: s.memory }) := by
  rw [analyzeFile]
  cases hremembered : s.remembered? path with
  | some facts => exact .inl ⟨facts, rfl, rfl⟩
  | none =>
    cases hhandles : s.handles path with
    | false => exact .inr (.inl ⟨rfl, rfl, rfl⟩)
    | true =>
      cases hread : read (Path.join s.base path) with
      | none => exact .inr (.inr (.inl ⟨rfl, rfl, rfl, rfl⟩))
      | some text => exact .inr (.inr (.inr ⟨text, rfl, rfl, rfl, rfl⟩))

theorem remembered?_cons (s : Session) (key : List Path.Step) (facts : FileFacts) (path : String) :
    ({ s with memory := (key, facts) :: s.memory } : Session).remembered? path
      = if key = s.key path then some facts else s.remembered? path := by
  change (((key, facts) :: s.memory).find? fun e => e.1 == s.key path).map (·.2) = _
  rw [List.find?_cons]
  by_cases hkey : key = s.key path
  · rw [if_pos hkey, beq_iff_eq.mpr hkey]
    rfl
  · rw [if_neg hkey, beq_eq_false_iff_ne.mpr hkey]
    rfl

/-- The directory that paths are seen from stays the same. -/
theorem base_call (s : Session) (c : Call) : (s.call c).2.base = s.base := by
  cases c with
  | analyze read path =>
    obtain ⟨_, -, h⟩ | ⟨-, -, h⟩ | ⟨-, -, -, h⟩ | ⟨_, -, -, -, h⟩ :=
      s.analyzeFile_cases read path <;> rw [call, h] <;> rfl
  | facts path => rfl
  | files => rfl
  | clear => rfl

theorem base_run (s : Session) (calls : List Call) : (s.run calls).2.base = s.base := by
  induction calls generalizing s with
  | nil => rfl
  | cons c calls ih => exact (ih _).trans (s.base_call c)

/-- What is remembered stays as it is until the memory is cleared. -/
theorem remembered?_call {c : Call} (hc : c.isClear = false) (h : s.remembered? path = some facts) :
    (s.call c).2.remembered? path = some facts := by
  cases c with
  | analyze read p =>
    obtain ⟨_, -, heq⟩ | ⟨-, -, heq⟩ | ⟨-, -, -, heq⟩ | ⟨text, hnone, -, -, heq⟩ :=
      s.analyzeFile_cases read p
    · rw [call, heq]; exact h
    · rw [call, heq]; exact h
    · rw [call, heq]; exact h
    · have hkey : s.key p ≠ s.key path := by
        intro hkey
        rw [remembered?, hkey] at hnone
        exact Option.some_ne_none facts (h.symm.trans hnone)
      rw [call, heq]
      exact (remembered?_cons s _ _ path).trans ((if_neg hkey).trans h)
  | facts p => exact h
  | files => exact h
  | clear => exact absurd hc (by decide)

theorem remembered?_run {calls : List Call} (hcalls : ∀ c ∈ calls, c.isClear = false)
    (h : s.remembered? path = some facts) : (s.run calls).2.remembered? path = some facts := by
  induction calls generalizing s with
  | nil => exact h
  | cons c calls ih =>
    exact ih (fun c' hc' => hcalls c' (List.mem_cons_of_mem c hc'))
      (remembered?_call (hcalls c List.mem_cons_self) h)

/-! ### What the log says -/

/-- The memory holds the results that the log tells of: each file once, under the steps of its
path. -/
structure Agrees (log : Log) (s : Session) : Prop where
  nodup : (s.memory.map Prod.fst).Nodup
  keys : ∃ paths : List String, s.memory.map Prod.fst = paths.map s.key
  found : ∀ path, s.remembered? path = s.firstResult? path log

theorem agrees_new (base : String) (parse : String → Syntax.Tree) (catalog : Catalog) :
    Agrees [] (new base parse catalog) :=
  ⟨List.nodup_nil, ⟨[], rfl⟩, fun _ => rfl⟩

theorem agrees_clear (log : Log) (s : Session) : Agrees (log ++ [(.clear, .cleared)]) s.clear := by
  refine ⟨List.nodup_nil, ⟨[], rfl⟩, fun path => ?_⟩
  rw [firstResult?, sinceClear_append]
  rfl

namespace Agrees

/-- A call that remembers nothing, and gives no result for a file that is not remembered. -/
theorem same (h : Agrees log s) {e : Call × Reply} (he : e.1.isClear = false)
    (hresult : ∀ path, s.remembered? path = none → s.resultFor? path e = none) :
    Agrees (log ++ [e]) s := by
  refine ⟨h.nodup, h.keys, fun path => ?_⟩
  rw [firstResult?_append s path log he, ← h.found path]
  cases hpath : s.remembered? path with
  | some facts => rfl
  | none => rw [hresult path hpath]; rfl

/-- An analysis with a result for a file that is not remembered. -/
theorem more (h : Agrees log s) {read : String → Option String} {p : String}
    (hnone : s.remembered? p = none) (hhandles : s.handles p) (facts : FileFacts) :
    Agrees (log ++ [(.analyze read p, .analyzed (.ok facts))])
      { s with memory := (s.key p, facts) :: s.memory } := by
  have hkey : s.key p ∉ s.memory.map Prod.fst := by
    intro hmem
    obtain ⟨e, he, heq⟩ := List.mem_map.mp hmem
    have := List.find?_eq_none.mp (Option.map_eq_none_iff.mp hnone) e he
    exact this (beq_iff_eq.mpr heq)
  obtain ⟨paths, hpaths⟩ := h.keys
  refine ⟨List.nodup_cons.mpr ⟨hkey, h.nodup⟩, ⟨p :: paths, congrArg (s.key p :: ·) hpaths⟩,
    fun path => ?_⟩
  refine (remembered?_cons s _ facts path).trans
    (Eq.trans ?_ (firstResult?_append s path log rfl).symm)
  rw [← h.found path]
  by_cases heq : s.key p = s.key path
  · have hpath : s.remembered? path = none := by rwa [remembered?, ← heq]
    rw [if_pos heq, hpath]
    exact (if_pos ⟨heq, hhandles⟩).symm
  · have hresult : s.resultFor? path (.analyze read p, .analyzed (.ok facts)) = none :=
      if_neg fun h => heq h.1
    rw [if_neg heq, hresult, Option.or_none]

theorem call (h : Agrees log s) (c : Call) :
    Agrees (log ++ [(c, (s.call c).1)]) (s.call c).2 := by
  cases c with
  | analyze read p =>
    obtain ⟨facts, hp, heq⟩ | ⟨-, hhandles, heq⟩ | ⟨-, -, -, heq⟩ |
      ⟨text, hnone, hhandles, -, heq⟩ := s.analyzeFile_cases read p
    · rw [Session.call, heq]
      refine h.same rfl fun path hpath => if_neg fun hkey => ?_
      rw [remembered?, ← hkey.1] at hpath
      exact Option.some_ne_none facts (hp.symm.trans hpath)
    · rw [Session.call, heq]
      exact h.same rfl fun path _ => if_neg fun hkey =>
        Bool.false_ne_true (hhandles.symm.trans hkey.2)
    · rw [Session.call, heq]
      exact h.same rfl fun _ _ => rfl
    · rw [Session.call, heq]
      exact h.more hnone hhandles _
  | facts p => exact h.same rfl fun _ _ => rfl
  | files => exact h.same rfl fun _ _ => rfl
  | clear => exact agrees_clear log s

theorem run (h : Agrees log s) (calls : List Call) :
    Agrees (log ++ (s.run calls).1) (s.run calls).2 := by
  induction calls generalizing log s with
  | nil => rwa [Session.run, List.append_nil]
  | cons c calls ih =>
    have hrest := ih (h.call c)
    rwa [List.append_assoc] at hrest

end Agrees

/-! ### What is remembered -/

/-- The session remembers what the log tells of, and nothing else changes what it returns. -/
structure Remembers (log : Log) (s : Session) : Prop where
  /-- The facts of a file are those of its first analysis with a result. -/
  facts : ∀ path, s.remembered? path = s.firstResult? path log
  /-- Until the memory is cleared, every analysis of the file gives these facts, whatever lies on
  the disk. -/
  kept : ∀ path facts, s.firstResult? path log = some facts →
    ∀ calls : List Call, (∀ c ∈ calls, c.isClear = false) → ∀ read,
      (s.run calls).2.analyzeFile read path = (.ok facts, (s.run calls).2)
  /-- Files of other kinds and files that cannot be read leave everything as it is. -/
  unchanged : ∀ read path, s.handles path = false ∨ read (Path.join s.base path) = none →
    (s.analyzeFile read path).2 = s
  /-- The listing is in order and has the path in the facts of each file, once for each file. -/
  files : ∃ paths : List String, (paths.Pairwise fun p q => s.key p ≠ s.key q) ∧
    (∀ path, (s.firstResult? path log).isSome ↔ ∃ p ∈ paths, s.key p = s.key path) ∧
    s.analyzedFiles.Perm (paths.filterMap fun p => (s.firstResult? p log).map FileFacts.path) ∧
    s.analyzedFiles.Pairwise (· ≤ ·)
  /-- Below an absolute directory, a file is the same by its path from there and by its absolute
  path. -/
  forms : Path.isAbsolute s.base → (∀ path, s.key (Path.join s.base path) = s.key path) ∧
    ∀ path rel, Path.below? s.base path = some rel → s.key rel = s.key path

theorem analyzeFile_of_remembered (h : s.remembered? path = some facts)
    (read : String → Option String) : s.analyzeFile read path = (.ok facts, s) := by
  rw [analyzeFile, h]

theorem analyzeFile_snd_of_unread {read : String → Option String}
    (h : s.handles path = false ∨ read (Path.join s.base path) = none) :
    (s.analyzeFile read path).2 = s := by
  obtain ⟨_, -, heq⟩ | ⟨-, -, heq⟩ | ⟨-, -, -, heq⟩ | ⟨text, -, hhandles, hread, -⟩ :=
    s.analyzeFile_cases read path
  · rw [heq]
  · rw [heq]
  · rw [heq]
  · rw [hhandles, hread] at h
    simp at h

/-- Both forms of a path lead to the same file. -/
theorem key_join (h : Path.isAbsolute s.base) (path : String) :
    s.key (Path.join s.base path) = s.key path := by
  rw [key, Path.join_of_isAbsolute (Path.isAbsolute_join h), key]

theorem key_of_below? (h : Path.isAbsolute s.base) {rel : String}
    (hrel : Path.below? s.base path = some rel) : s.key rel = s.key path := by
  obtain ⟨habsolute, hsteps⟩ := Path.steps_join_of_below? h hrel
  rw [key, key, hsteps, Path.join_of_isAbsolute habsolute]

theorem isSome_remembered?_iff :
    (s.remembered? path).isSome ↔ s.key path ∈ s.memory.map Prod.fst := by
  simp [remembered?]

/-- The listing has the path in each entry. -/
theorem Agrees.analyzedFiles_perm (h : Agrees log s) {paths : List String}
    (hpaths : s.memory.map Prod.fst = paths.map s.key) :
    s.analyzedFiles.Perm (paths.filterMap fun p => (s.remembered? p).map FileFacts.path) := by
  have hentry : ∀ e ∈ s.memory, (((s.memory.find? fun d => d.1 == e.1).map Prod.snd).map
      FileFacts.path) = some e.2.path := by
    intro e he
    rw [KeyedList.find?_fst_eq_some h.nodup he]
    rfl
  have hlist : (paths.filterMap fun p => (s.remembered? p).map FileFacts.path)
      = s.memory.map fun e => e.2.path := by
    calc paths.filterMap (fun p => (s.remembered? p).map FileFacts.path)
        = (paths.map s.key).filterMap fun k =>
            ((s.memory.find? fun d => d.1 == k).map Prod.snd).map FileFacts.path := by
          rw [List.filterMap_map]
          rfl
      _ = s.memory.filterMap fun e => some e.2.path := by
          rw [← hpaths, List.filterMap_map]
          exact List.filterMap_congr hentry
      _ = s.memory.map fun e => e.2.path := congrFun List.filterMap_eq_map' _
  rw [hlist]
  exact List.mergeSort_perm _ _

theorem pairwise_analyzedFiles (s : Session) : s.analyzedFiles.Pairwise (· ≤ ·) := by
  have hsortable := Project.IsSortable.of_compare (compare : String → String → Ordering)
  have hle : ∀ {a b : String}, (compare a b != .gt) = true → a ≤ b := by
    intro a b hab hlt
    have hba : compare b a = .lt := compareOfLessAndEq_eq_lt.mpr hlt
    rw [Std.OrientedCmp.gt_of_lt hba] at hab
    exact absurd hab (by decide)
  exact (hsortable.pairwise_mergeSort (s.memory.map fun e => e.2.path)).imp hle

theorem Agrees.remembers (h : Agrees log s) : Remembers log s where
  facts := h.found
  kept path facts hfacts calls hcalls :=
    analyzeFile_of_remembered (remembered?_run hcalls ((h.found path).trans hfacts))
  unchanged _ _ := analyzeFile_snd_of_unread
  files := by
    obtain ⟨paths, hpaths⟩ := h.keys
    simp only [← h.found]
    refine ⟨paths, List.pairwise_map.mp (hpaths ▸ h.nodup), fun path => ?_,
      h.analyzedFiles_perm hpaths, s.pairwise_analyzedFiles⟩
    rw [isSome_remembered?_iff, hpaths, List.mem_map]
  forms hbase := ⟨key_join hbase, fun _ _ => key_of_below? hbase⟩

/-- **The memory of a session.** After any calls, between which the files may change in any way, the
session sees paths from the same directory and remembers what the log of the calls tells of. -/
theorem remembers_run (base : String) (parse : String → Syntax.Tree) (catalog : Catalog)
    (calls : List Call) :
    ((new base parse catalog).run calls).2.base = base ∧
      Remembers ((new base parse catalog).run calls).1 ((new base parse catalog).run calls).2 :=
  ⟨base_run _ calls, ((agrees_new base parse catalog).run calls).remembers⟩

end ApiSurface.Session
