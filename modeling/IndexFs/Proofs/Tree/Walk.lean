import IndexFs.Tree
import Mathlib.Data.List.TakeWhile

/-!
# Walks and their order

What a walk has still to visit stands on a stack. A depth-first walk goes through the directories of the stack and
everything below them in one order (`DepthFirst`), and a visit takes the first directory of this order away
(`pending_step`). So a walk goes along its order to the end, or to the first directory that cannot be listed
(`follows_run`), and what it has printed then is a page with a row for each entry (`Follows.prints`).
-/

namespace IndexFs

/-! ## Pages -/

/-- What a line of a tree stands for: an entry, and how far below the root its directory is. -/
structure Row where
  depth : Nat
  name : String
deriving DecidableEq, Repr

/-- The line of an entry, with two blanks more than those of its directory. -/
def Row.text (r : Row) : String :=
  String.ofList (List.replicate (2 * (r.depth + 1)) ' ') ++ r.name

/-- A root with the lines below it. -/
def page (root : Url) (rows : List Row) : String :=
  String.join ((root.text :: rows.map Row.text).map (· ++ "\n"))

namespace Walk

variable (list : Url → Except FsError (List DirectoryEntry))

/-! ## Below a directory -/

/-- The entries of a directory, none if it cannot be listed. -/
def entries (u : Url) : List DirectoryEntry :=
  match list u with
  | .ok es => es
  | .error _ => []

/-- The directory that an entry of `u` stands for. -/
def subdirectory? (u : Url) (e : DirectoryEntry) : Option Url :=
  if e.kind = .directory then
    match u.child e.name with
    | .ok v => some v
    | .error _ => none
  else none

/-- The directories in a directory, in the order of its listing. -/
def subdirectories (u : Url) : List Url :=
  (entries list u).filterMap (subdirectory? u)

/-- All directories in a directory can be put below it. -/
def IsOpen (u : Url) : Prop :=
  ∀ e ∈ entries list u, e.kind = .directory → ∃ v, u.child e.name = .ok v

/-- Whether a walk lists directories at some depth. -/
def reaches (limit : Option Nat) (depth : Nat) : Bool :=
  match limit with
  | none => true
  | some n => depth < n

/-- The directories that a visit puts in front of all others, but for those that are too deep. -/
def visitsBelow (limit : Option Nat) (v : Visit) : List Visit :=
  ((subdirectories list v.url).map (Visit.mk · (v.depth + 1))).filter (reaches limit ·.depth)

/-- The rows of the entries of a directory, in the order of its listing. -/
def rows (v : Visit) : List Row :=
  (entries list v.url).map fun e => ⟨v.depth, e.name⟩

variable {list} {limit : Option Nat}

theorem entries_of_ok {u : Url} {es : List DirectoryEntry} (h : list u = .ok es) : entries list u = es := by
  unfold entries
  rw [h]

theorem isBeyond_eq (w : Walk) (v : Visit) : w.isBeyond v = !reaches w.limit v.depth := by
  unfold isBeyond reaches
  cases w.limit with
  | none => rfl
  | some n =>
    by_cases h : n ≤ v.depth
    · simp [h]
    · simp [h, Nat.lt_of_not_le h]

theorem subdirectory?_of_ok {u v : Url} {e : DirectoryEntry} (hkind : e.kind = .directory)
    (hchild : u.child e.name = .ok v) : subdirectory? u e = some v := by
  unfold subdirectory?
  rw [if_pos hkind, hchild]

theorem subdirectory?_of_ne {e : DirectoryEntry} (u : Url) (hkind : e.kind ≠ .directory) :
    subdirectory? u e = none :=
  if_neg hkind

theorem subdirectory?_eq_some {u v : Url} {e : DirectoryEntry} :
    subdirectory? u e = some v ↔ e.kind = .directory ∧ u.child e.name = .ok v := by
  constructor
  · intro h
    unfold subdirectory? at h
    split at h
    · next hkind =>
      refine ⟨hkind, ?_⟩
      cases hchild : u.child e.name with
      | error error =>
        rw [hchild] at h
        cases h
      | ok w =>
        rw [hchild] at h
        rw [Option.some.inj h]
    · cases h
  · exact fun ⟨hkind, hchild⟩ => subdirectory?_of_ok hkind hchild

theorem mem_subdirectories {u v : Url} :
    v ∈ subdirectories list u ↔ ∃ e ∈ entries list u, e.kind = .directory ∧ u.child e.name = .ok v := by
  simp only [subdirectories, List.mem_filterMap, subdirectory?_eq_some]

/-- Without a limit nothing is too deep. -/
theorem visitsBelow_none (v : Visit) :
    visitsBelow list none v = (subdirectories list v.url).map (Visit.mk · (v.depth + 1)) :=
  List.filter_eq_self.mpr fun _ _ => rfl

theorem line_eq (depth : Nat) (e : DirectoryEntry) : line depth e = Row.text ⟨depth, e.name⟩ :=
  rfl

/-- Where all directories can be put below it, a directory is listed whole. -/
theorem expand_eq (v : Visit) (es : List DirectoryEntry)
    (h : ∀ e ∈ es, e.kind = .directory → ∃ u, v.url.child e.name = .ok u) :
    expand v es =
      (es.map fun e => Row.text ⟨v.depth, e.name⟩,
        .ok ((es.filterMap (subdirectory? v.url)).map (Visit.mk · (v.depth + 1)))) := by
  induction es with
  | nil => rfl
  | cons e es ih =>
    have htail := ih fun e' he' => h e' (List.mem_cons_of_mem e he')
    unfold expand
    rw [htail, line_eq]
    by_cases hkind : e.kind = .directory
    · obtain ⟨u, hchild⟩ := h e List.mem_cons_self hkind
      rw [if_pos hkind, hchild, List.filterMap_cons_some (subdirectory?_of_ok hkind hchild)]
      rfl
    · rw [if_neg hkind, List.filterMap_cons_none (subdirectory?_of_ne v.url hkind)]
      rfl

/-! ## Depth first -/

/-- An order goes through a forest depth first: through each root, then through all that is below it, and then
through the roots after it. -/
inductive DepthFirst {α : Type} (below : α → List α) : List α → List α → Prop where
  | nil : DepthFirst below [] []
  | cons {root : α} {roots inside after : List α} (hinside : DepthFirst below (below root) inside)
      (hafter : DepthFirst below roots after) : DepthFirst below (root :: roots) (root :: (inside ++ after))

namespace DepthFirst

variable {α β : Type} {below : α → List α}

theorem eq_nil {roots : List α} (h : DepthFirst below roots []) : roots = [] := by
  cases h
  rfl

/-- The order of a forest starts with its first root. -/
theorem of_cons {roots order : List α} {a : α} (h : DepthFirst below roots (a :: order)) :
    ∃ others inside after, roots = a :: others ∧ order = inside ++ after ∧
      DepthFirst below (below a) inside ∧ DepthFirst below others after := by
  cases h with
  | cons hinside hafter => exact ⟨_, _, _, rfl, rfl, hinside, hafter⟩

theorem append {roots roots' order order' : List α} (h : DepthFirst below roots order)
    (h' : DepthFirst below roots' order') : DepthFirst below (roots ++ roots') (order ++ order') := by
  induction h with
  | nil => exact h'
  | cons hinside _ _ ih =>
    rw [List.cons_append, List.cons_append, List.append_assoc]
    exact .cons hinside ih

/-- The order of a forest is made of the orders of its trees. -/
theorem flatMap {xs : List β} {roots order : β → List α} (h : ∀ x ∈ xs, DepthFirst below (roots x) (order x)) :
    DepthFirst below (xs.flatMap roots) (xs.flatMap order) := by
  induction xs with
  | nil => exact .nil
  | cons x xs ih =>
    rw [List.flatMap_cons, List.flatMap_cons]
    exact (h x List.mem_cons_self).append (ih fun y hy => h y (List.mem_cons_of_mem x hy))

end DepthFirst

/-! ## A visit -/

/-- What is still to be visited and is not too deep. -/
def pending (w : Walk) : List Visit :=
  w.todo.filter (reaches w.limit ·.depth)

theorem rest_of_pending_nil {w : Walk} (h : w.pending = []) : w.rest = [] := by
  refine List.dropWhile_eq_nil_iff.mpr fun v hv => ?_
  rw [isBeyond_eq, Bool.eq_false_iff.mpr (List.filter_eq_nil_iff.mp h v hv)]
  rfl

/-- Directories that are too deep are dropped when they come up. -/
theorem rest_of_pending_cons {w : Walk} {v : Visit} {vs : List Visit} (h : w.pending = v :: vs) :
    ∃ others, w.rest = v :: others ∧ others.filter (reaches w.limit ·.depth) = vs := by
  unfold pending at h
  unfold rest
  generalize w.todo = todo at h
  induction todo with
  | nil => cases h
  | cons x todo ih =>
    rw [List.filter_cons] at h
    rw [List.dropWhile_cons, isBeyond_eq]
    cases hx : reaches w.limit x.depth with
    | true =>
      rw [hx, if_pos rfl] at h
      cases h
      exact ⟨todo, rfl, rfl⟩
    | false =>
      rw [hx, if_neg Bool.false_ne_true] at h
      exact ih h

theorem isFinished_of_error {w : Walk} {e : TreeError} (h : w.error = some e) : w.isFinished = true := by
  unfold isFinished
  rw [h]
  rfl

theorem isFinished_of_pending_nil {w : Walk} (h : w.pending = []) : w.isFinished = true := by
  unfold isFinished
  rw [rest_of_pending_nil h, List.isEmpty_nil, Bool.or_true]

theorem not_isFinished_of_pending_cons {w : Walk} {v : Visit} {vs : List Visit} (herror : w.error = none)
    (h : w.pending = v :: vs) : w.isFinished = false := by
  obtain ⟨others, hrest, -⟩ := rest_of_pending_cons h
  unfold isFinished
  rw [herror, hrest]
  rfl

theorem step_eq {w : Walk} {v : Visit} {others : List Visit} (herror : w.error = none)
    (hrest : w.rest = v :: others) : w.step list = w.resume v others (list v.url) := by
  unfold step
  rw [herror, hrest]
  rfl

/-- A visit takes the next directory from the stack and puts the directories in it there instead. -/
theorem pending_step {w : Walk} {v : Visit} {vs : List Visit} {es : List DirectoryEntry}
    (herror : w.error = none) (h : w.pending = v :: vs) (hlist : list v.url = .ok es)
    (hopen : IsOpen list v.url) :
    (w.step list).pending = visitsBelow list w.limit v ++ vs ∧ (w.step list).limit = w.limit ∧
      (w.step list).error = none ∧ (w.step list).requested = w.requested ++ [v.url] ∧
      (w.step list).lines = w.lines ++ (rows list v).map Row.text := by
  obtain ⟨others, hrest, hothers⟩ := rest_of_pending_cons h
  unfold IsOpen at hopen
  unfold visitsBelow subdirectories rows
  rw [entries_of_ok hlist] at hopen ⊢
  rw [List.map_map]
  rw [step_eq herror hrest, hlist]
  unfold resume
  dsimp only
  rw [expand_eq v es hopen]
  refine ⟨?_, rfl, herror, rfl, rfl⟩
  unfold pending
  dsimp only
  rw [List.filter_append, hothers]

theorem step_of_error {w : Walk} {v : Visit} {vs : List Visit} {e : FsError} (herror : w.error = none)
    (h : w.pending = v :: vs) (hlist : list v.url = .error e) :
    (w.step list).error = some (.listing v.url e) ∧ (w.step list).requested = w.requested ++ [v.url] ∧
      (w.step list).lines = w.lines := by
  obtain ⟨others, hrest, -⟩ := rest_of_pending_cons h
  rw [step_eq herror hrest, hlist]
  exact ⟨rfl, rfl, rfl⟩

/-! ## Runs -/

theorem run_of_isFinished {w : Walk} (h : w.isFinished = true) (fuel : Nat) : w.run list fuel = w := by
  cases fuel with
  | zero => rfl
  | succ fuel =>
    unfold run
    rw [h]
    rfl

theorem run_succ {w : Walk} (h : w.isFinished = false) (fuel : Nat) :
    w.run list (fuel + 1) = (w.step list).run list fuel := by
  show (if w.isFinished = true then w else _) = _
  rw [if_neg (by rw [h]; decide)]

/-- What a walk that went along an order leaves behind. -/
inductive Follows (list : Url → Except FsError (List DirectoryEntry)) (order : List Visit) (w w' : Walk) :
    Prop where
  /-- Everything was listed. -/
  | whole (hlisted : ∀ v ∈ order, ∃ es, list v.url = .ok es)
      (hrequested : w'.requested = w.requested ++ order.map Visit.url)
      (hlines : w'.lines = w.lines ++ (order.flatMap (rows list)).map Row.text) (herror : w'.error = none)
  /-- A directory could not be listed, and nothing after it was asked for. -/
  | broken {before after : List Visit} {v : Visit} {e : FsError} (horder : order = before ++ v :: after)
      (hlisted : ∀ v ∈ before, ∃ es, list v.url = .ok es) (hfails : list v.url = .error e)
      (hrequested : w'.requested = w.requested ++ before.map Visit.url ++ [v.url])
      (hlines : w'.lines = w.lines ++ (before.flatMap (rows list)).map Row.text)
      (herror : w'.error = some (.listing v.url e))

/-- What holds from the second visit on holds from the first. -/
theorem Follows.cons {order : List Visit} {v : Visit} {es : List DirectoryEntry} {w w₁ w' : Walk}
    (h : Follows list order w₁ w') (hlist : list v.url = .ok es)
    (hrequested : w₁.requested = w.requested ++ [v.url])
    (hlines : w₁.lines = w.lines ++ (rows list v).map Row.text) : Follows list (v :: order) w w' := by
  have hfirst : ∀ {others : List Visit}, (∀ x ∈ others, ∃ es, list x.url = .ok es) →
      ∀ x ∈ v :: others, ∃ es, list x.url = .ok es := by
    intro others hothers x hx
    rcases List.mem_cons.mp hx with rfl | hx
    · exact ⟨es, hlist⟩
    · exact hothers x hx
  cases h with
  | whole hlisted hrequested' hlines' herror =>
    refine .whole (hfirst hlisted) ?_ ?_ herror
    · rw [hrequested', hrequested, List.append_assoc]
      rfl
    · rw [hlines', hlines, List.append_assoc, ← List.map_append]
      rfl
  | broken horder hlisted hfails hrequested' hlines' herror =>
    refine .broken (congrArg (v :: ·) horder) (hfirst hlisted) hfails ?_ ?_ herror
    · rw [hrequested', hrequested, List.append_assoc w.requested]
      rfl
    · rw [hlines', hlines, List.append_assoc, ← List.map_append]
      rfl

/-- A walk goes along the order of what is on its stack. -/
theorem follows_run {order : List Visit} {w : Walk} (herror : w.error = none)
    (horder : DepthFirst (visitsBelow list w.limit) w.pending order) (hopen : ∀ v ∈ order, IsOpen list v.url)
    {fuel : Nat} (hfuel : order.length ≤ fuel) :
    (w.run list fuel).isFinished = true ∧ Follows list order w (w.run list fuel) := by
  induction order generalizing w fuel with
  | nil =>
    have hfinished := isFinished_of_pending_nil horder.eq_nil
    rw [run_of_isFinished hfinished]
    exact ⟨hfinished, .whole (fun _ hv => nomatch hv) (List.append_nil _).symm (List.append_nil _).symm herror⟩
  | cons v order ih =>
    obtain ⟨others, inside, after, hpending, rfl, hinside, hafter⟩ := horder.of_cons
    obtain ⟨fuel, rfl⟩ : ∃ n, fuel = n + 1 := ⟨fuel - 1, by rw [List.length_cons] at hfuel; omega⟩
    rw [run_succ (not_isFinished_of_pending_cons herror hpending)]
    cases hlist : list v.url with
    | error e =>
      obtain ⟨herror', hrequested, hlines⟩ := step_of_error herror hpending hlist
      have hfinished := isFinished_of_error herror'
      rw [run_of_isFinished hfinished]
      refine ⟨hfinished, .broken (List.nil_append _).symm (fun _ hv => nomatch hv) hlist ?_ ?_ herror'⟩
      · rw [hrequested, List.map_nil, List.append_nil]
      · rw [hlines, List.flatMap_nil, List.map_nil, List.append_nil]
    | ok es =>
      obtain ⟨hpending', hlimit, herror', hrequested, hlines⟩ :=
        pending_step herror hpending hlist (hopen v List.mem_cons_self)
      have horder' : DepthFirst (visitsBelow list (w.step list).limit) (w.step list).pending (inside ++ after) := by
        rw [hpending', hlimit]
        exact hinside.append hafter
      obtain ⟨hfinished, hfollows⟩ := ih herror' horder'
        (fun x hx => hopen x (List.mem_cons_of_mem v hx)) (Nat.le_of_succ_le_succ hfuel)
      exact ⟨hfinished, hfollows.cons hlist hrequested hlines⟩

/-! ## What is printed -/

/-- What is left of a walk from a root through the directories of an order: what it asked for, what it printed, and
how it ended. -/
inductive Prints (list : Url → Except FsError (List DirectoryEntry)) (root : Url) (order : List Visit) (w : Walk) :
    Prop where
  /-- Everything was listed, and a row printed for each entry. -/
  | whole (hlisted : ∀ v ∈ order, ∃ es, list v.url = .ok es) (hrequested : w.requested = order.map Visit.url)
      (htext : w.text = page root (order.flatMap (rows list))) (herror : w.error = none)
  /-- A directory could not be listed: this is the error, and what comes before it was printed. -/
  | broken {before after : List Visit} {v : Visit} {e : FsError} (horder : order = before ++ v :: after)
      (hlisted : ∀ v ∈ before, ∃ es, list v.url = .ok es) (hfails : list v.url = .error e)
      (hrequested : w.requested = before.map Visit.url ++ [v.url])
      (htext : w.text = page root (before.flatMap (rows list))) (herror : w.error = some (.listing v.url e))

theorem text_of_lines {root : Url} {w : Walk} {rs : List Row} (h : w.lines = root.text :: rs.map Row.text) :
    w.text = page root rs := by
  unfold text page
  rw [h]

/-- A walk from a root has printed the root before its first visit. -/
theorem Follows.prints {order : List Visit} {root : Url} {w : Walk} (h : Follows list order (start limit root) w) :
    Prints list root order w := by
  cases h with
  | whole hlisted hrequested hlines herror => exact .whole hlisted hrequested (text_of_lines hlines) herror
  | broken horder hlisted hfails hrequested hlines herror =>
    exact .broken horder hlisted hfails hrequested (text_of_lines hlines) herror

end Walk

end IndexFs
