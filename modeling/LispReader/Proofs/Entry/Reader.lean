import LispReader.Entry

/-!
# Reading entries

An entry is read line by line from a terminal, which may also be interrupted or come to its end. Read
again and again until the end, the entries are groups of consecutive lines: none of them is lost, and a
group goes on just as long as its lines leave something open (`Entry.entries_of_lines`).
-/

namespace LispReader.Entry

/-! ### The reader -/

/-- What a terminal answers when it is asked for a line. -/
inductive Answer where
  | line (text : List Char)
  | interrupted
  | failed

/-- What comes of reading an entry. -/
inductive Status where
  | entry (text : List Char)
  | interrupted
  | done

/-- Reads on after the pending lines. Beside the status stands what is left of the answers; after the
last of them the terminal only fails. -/
def readOn (pending : List Char) : List Answer → Status × List Answer
  | .line line :: rest =>
    if endsWith pending line then (.entry (extend pending line), rest)
    else readOn (extend pending line) rest
  | .interrupted :: rest => (.interrupted, rest)
  | .failed :: rest => (if pending.isEmpty then .done else .entry pending, rest)
  | [] => (if pending.isEmpty then .done else .entry pending, [])

/-- Reads an entry. -/
def read (answers : List Answer) : Status × List Answer := readOn [] answers

/-- Reading is repeated until it is done: the statuses from this one on, without the last. -/
inductive Repeats : Status × List Answer → List Status → Prop where
  | done (rest : List Answer) : Repeats (.done, rest) []
  | again {status : Status} {rest : List Answer} {later : List Status} :
    status ≠ .done → Repeats (read rest) later → Repeats (status, rest) (status :: later)

/-! ### Groups of lines -/

/-- Joins lines, which keep their ends, with one more newline. -/
def join (lines : List (List Char)) : List Char := ['\n'].intercalate lines

/-- The last of the lines is blank, or together they leave nothing open. -/
def Closed (group : List (List Char)) : Prop :=
  ∃ line ∈ group.getLast?, Text.isBlank line = true ∨ isOpen (join group) = false

/-- There is no line yet that could end an entry. -/
def Unfinished (group : List (List Char)) : Prop := ∀ front, front <+: group → ¬ Closed front

/-- The last line is the first that could end the entry. -/
def Finished (group : List (List Char)) : Prop :=
  Closed group ∧ ∀ front, front <+: group → front ≠ group → ¬ Closed front

/-- Consecutive groups that contain every line once. Only the last one may be cut off by the end. -/
inductive Grouping : List (List Char) → List (List (List Char)) → Prop where
  | nil : Grouping [] []
  | cutOff {group : List (List Char)} : group ≠ [] → Unfinished group → Grouping group [group]
  | cons {group lines : List (List Char)} {groups : List (List (List Char))} :
    Finished group → Grouping lines groups → Grouping (group ++ lines) (group :: groups)

variable {front group lines : List (List Char)} {groups : List (List (List Char))}

theorem join_append_singleton (some : front ≠ []) (line : List Char) :
    join (front ++ [line]) = join front ++ '\n' :: line := by
  induction front with
  | nil => exact absurd rfl some
  | cons first front ih =>
    cases front with
    | nil => simp [join, List.intercalate_cons_cons]
    | cons second front =>
      have more := ih (List.cons_ne_nil _ _)
      simp only [join, List.cons_append, List.intercalate_cons_cons, List.append_assoc] at more ⊢
      rw [more]

theorem join_ne_nil (some : group ≠ [])
    (nonempty : ∀ line ∈ group, line ≠ []) : join group ≠ [] := by
  cases group with
  | nil => exact absurd rfl some
  | cons first group =>
    have first := nonempty first (List.mem_cons_self ..)
    cases group with
    | nil => simpa [join] using first
    | cons => simp [join, List.intercalate_cons_cons]

theorem join_concat (nonempty : ∀ line ∈ front, line ≠ [])
    (line : List Char) : join (front ++ [line]) = extend (join front) line := by
  by_cases some : front = []
  · subst some
    simp [join, extend]
  · rw [join_append_singleton some, extend, if_neg (by simpa using join_ne_nil some nonempty)]

theorem closed_concat_iff (nonempty : ∀ line ∈ front, line ≠ [])
    (line : List Char) : Closed (front ++ [line]) ↔ endsWith (join front) line = true := by
  simp [Closed, endsWith, join_concat nonempty]

theorem Unfinished.nonempty (h : Unfinished group) :
    ∀ line ∈ group, line ≠ [] := by
  rintro line known rfl
  obtain ⟨before, after, rfl⟩ := List.append_of_mem known
  -- An empty line is blank.
  exact h (before ++ [[]]) ⟨after, by simp⟩ ⟨[], by simp, .inl rfl⟩

theorem unfinished_nil : Unfinished [] := by
  rintro front here ⟨line, last, -⟩
  obtain rfl := List.prefix_nil.mp here
  cases last

/-- What is read before the line ends nothing. -/
theorem Unfinished.concat {line : List Char} (h : Unfinished front)
    (goesOn : ¬ endsWith (join front) line = true) : Unfinished (front ++ [line]) := by
  intro part here
  rcases List.prefix_concat_iff.mp here with rfl | within
  · rwa [closed_concat_iff h.nonempty]
  · exact h part within

theorem Unfinished.finished {line : List Char} (h : Unfinished front)
    (ends : endsWith (join front) line = true) : Finished (front ++ [line]) := by
  refine ⟨(closed_concat_iff h.nonempty line).mpr ends, fun part here shorter => ?_⟩
  rcases List.prefix_concat_iff.mp here with same | within
  · exact absurd same shorter
  · exact h part within

theorem Closed.ne_nil (h : Closed group) : group ≠ [] := by
  obtain ⟨line, last, -⟩ := h
  rintro rfl
  cases last

namespace Grouping

theorem flatten (h : Grouping lines groups) : groups.flatten = lines := by
  induction h with
  | nil => rfl
  | cutOff => simp
  | cons _ _ ih => rw [List.flatten_cons, ih]

theorem nonempty (h : Grouping lines groups) : ∀ group ∈ groups, group ≠ [] := by
  induction h with
  | nil => simp
  | cutOff some => exact List.forall_mem_singleton.mpr some
  | cons finished _ ih => exact List.forall_mem_cons.mpr ⟨finished.1.ne_nil, ih⟩

theorem append {a b : List (List Char)} {more : List (List (List Char))}
    (first : Grouping a groups) (last : ∀ group ∈ groups.getLast?, Closed group)
    (rest : Grouping b more) : Grouping (a ++ b) (groups ++ more) := by
  induction first with
  | nil => exact rest
  | cutOff _ unfinished => exact absurd (last _ rfl) (unfinished _ (List.prefix_refl _))
  | @cons group lines groups finished _ ih =>
    rw [List.append_assoc]
    refine .cons finished (ih fun g known => last g ?_)
    rw [List.getLast?_cons, known]
    rfl

theorem eq_nil (h : Grouping [] groups) : groups = [] := by
  generalize empty : [] = lines at h
  cases h with
  | nil => rfl
  | cutOff some => exact absurd empty.symm some
  | cons finished => exact absurd (List.append_eq_nil_iff.mp empty.symm).1 finished.1.ne_nil

/-- The groups are determined by the lines. -/
theorem unique {groups' : List (List (List Char))} (h : Grouping lines groups)
    (h' : Grouping lines groups') : groups = groups' := by
  induction h generalizing groups' with
  | nil => exact h'.eq_nil.symm
  | @cutOff group some unfinished =>
    generalize same : group = lines at h'
    cases h' with
    | nil => exact absurd same some
    | cutOff => rfl
    | @cons group' lines _ finished _ => exact absurd finished.1 (unfinished _ ⟨lines, same.symm⟩)
  | @cons group lines groups finished rest ih =>
    generalize same : group ++ lines = whole at h'
    cases h' with
    | nil => exact absurd (List.append_eq_nil_iff.mp same).1 finished.1.ne_nil
    | cutOff _ unfinished => exact absurd finished.1 (unfinished _ ⟨lines, same⟩)
    | @cons group' lines' groups' finished' rest' =>
      -- The shorter one of two groups would end the longer one.
      have equal : group = group' := by
        rcases List.append_eq_append_iff.mp same with ⟨more, longer, -⟩ | ⟨more, longer, -⟩
        · exact Classical.byContradiction fun other =>
            finished'.2 group ⟨more, longer.symm⟩ other finished.1
        · exact Classical.byContradiction fun other =>
            finished.2 group' ⟨more, longer.symm⟩ (Ne.symm other) finished'.1
      subst equal
      rw [ih (List.append_cancel_left same ▸ rest')]

end Grouping

/-! ### Reading to the end -/

/-- The pending lines are a group that has only begun. -/
theorem exists_groups (h : Unfinished front) (lines : List (List Char)) :
    ∃ groups, Grouping (front ++ lines) groups ∧ ofLines (join front) lines = groups.map join ∧
      Repeats (readOn (join front) (lines.map .line)) (groups.map fun group => .entry (join group)) := by
  induction lines generalizing front with
  | nil =>
    by_cases some : front = []
    · subst some
      exact ⟨[], .nil, rfl, .done []⟩
    · have pending : (join front).isEmpty = false := by
        simpa using join_ne_nil some h.nonempty
      refine ⟨[front], by simpa using Grouping.cutOff some h, ?_, ?_⟩
      · simp [ofLines, pending]
      · simp only [List.map_nil, readOn, pending]
        exact .again Status.noConfusion (.done [])
  | cons line lines ih =>
    by_cases ends : endsWith (join front) line = true
    · obtain ⟨groups, grouping, same, repeats⟩ := ih unfinished_nil
      refine ⟨(front ++ [line]) :: groups, ?_, ?_, ?_⟩
      · have whole := Grouping.cons (h.finished ends) grouping
        simpa using whole
      · rw [ofLines, if_pos ends, List.map_cons, join_concat h.nonempty]
        exact congrArg _ same
      · rw [List.map_cons, readOn, if_pos ends, List.map_cons, join_concat h.nonempty]
        exact .again Status.noConfusion repeats
    · obtain ⟨groups, grouping, same, repeats⟩ := ih (h.concat ends)
      rw [join_concat h.nonempty] at same repeats
      refine ⟨groups, by simpa using grouping, ?_, ?_⟩
      · rw [ofLines, if_neg ends, same]
      · rw [List.map_cons, readOn, if_neg ends]
        exact repeats

theorem length_readOn (pending : List Char) (answers : List Answer) :
    (readOn pending answers).2.length ≤ answers.length - 1 := by
  induction answers generalizing pending with
  | nil => exact Nat.le_refl _
  | cons answer rest ih =>
    cases answer with
    | line line =>
      unfold readOn
      split
      · exact Nat.le_refl _
      · exact Nat.le_trans (ih _) (Nat.sub_le _ _)
    | _ => exact Nat.le_refl _

/-- The end comes whatever the terminal answers. -/
theorem exists_repeats (answers : List Answer) : ∃ statuses, Repeats (read answers) statuses := by
  induction length : answers.length using Nat.strongRecOn generalizing answers with
  | ind n ih =>
    cases answers with
    | nil => exact ⟨[], .done []⟩
    | cons answer rest =>
      have shorter := length_readOn [] (answer :: rest)
      obtain ⟨status, left, found⟩ : ∃ status left, readOn [] (answer :: rest) = (status, left) :=
        ⟨_, _, rfl⟩
      rw [found, List.length_cons] at shorter
      rw [read, found]
      by_cases done : status = .done
      · subst done
        exact ⟨[], .done left⟩
      · rw [List.length_cons] at length
        obtain ⟨later, repeats⟩ := ih left.length (by dsimp only at shorter; omega) left rfl
        exact ⟨status :: later, .again done repeats⟩

theorem Repeats.unique {start : Status × List Answer} {a b : List Status} (h : Repeats start a)
    (other : Repeats start b) : a = b := by
  induction h generalizing b with
  | done =>
    cases other with
    | done => rfl
    | again notDone => exact absurd rfl notDone
  | again notDone _ ih =>
    cases other with
    | done => exact absurd rfl notDone
    | again _ rest => rw [ih rest]

theorem exists_grouping (lines : List (List Char)) :
    ∃ groups, Grouping lines groups ∧ ofLines [] lines = groups.map join := by
  obtain ⟨groups, grouping, same, -⟩ := exists_groups unfinished_nil lines
  exact ⟨groups, grouping, same⟩

theorem repeats_ofLines (lines : List (List Char)) :
    Repeats (read (lines.map .line)) ((ofLines [] lines).map .entry) := by
  obtain ⟨groups, -, same, repeats⟩ := exists_groups unfinished_nil lines
  have same : ofLines [] lines = groups.map join := same
  rw [same, List.map_map]
  exact repeats

/-- Lines that are not cut off make the same entries whatever lines come after them. -/
theorem ofLines_append {a b : List (List Char)}
    (closed : ∀ entry ∈ (ofLines [] a).getLast?, ∀ line ∈ a.getLast?,
      Text.isBlank line = true ∨ isOpen entry = false) :
    ofLines [] (a ++ b) = ofLines [] a ++ ofLines [] b := by
  obtain ⟨groups, first, sameA⟩ := exists_grouping a
  obtain ⟨more, rest, sameB⟩ := exists_grouping b
  obtain ⟨all, whole, same⟩ := exists_grouping (a ++ b)
  rw [sameA] at closed
  have last : ∀ group ∈ groups.getLast?, Closed group := by
    intro group known
    obtain ⟨before, rfl⟩ := List.getLast?_eq_some_iff.mp known
    have some := first.nonempty group (by simp)
    have line := List.getLast?_eq_some_getLast some
    refine ⟨_, line, closed (join group) (by simp) _ ?_⟩
    rw [← first.flatten, List.flatten_append, List.flatten_singleton, List.getLast?_append, line]
    rfl
  rw [same, sameA, sameB, whole.unique (first.append last rest), List.map_append]

/-- Read until the end, the entries are the groups of consecutive lines, each of them joined. -/
theorem entries_of_lines (lines : List (List Char)) :
    ∃ groups, Grouping lines groups ∧ ofLines [] lines = groups.map join ∧
      ∀ statuses, Repeats (read (lines.map .line)) statuses ↔
        statuses = groups.map fun group => .entry (join group) := by
  obtain ⟨groups, grouping, same, repeats⟩ := exists_groups unfinished_nil lines
  refine ⟨groups, grouping, same, fun statuses => ⟨fun other => other.unique repeats, ?_⟩⟩
  rintro rfl
  exact repeats

/-- Lines keep their ends, so joining them leaves an empty line in between. -/
example : ofText "(\n)\n".toList = ["(\n\n)\n".toList] := by decide +kernel

end LispReader.Entry
