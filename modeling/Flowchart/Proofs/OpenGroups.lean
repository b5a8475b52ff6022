import Flowchart.Assembly
import Mathlib.Data.List.Infix

/-!
# Open groups

In the body of a diagram the statements that open and end groups are brackets.
A group is open behind the statements so far if from its opening on there have
always been more openings than endings.  An ending where no group is open counts
for nothing.  The main results say how one more statement changes the list of
the groups that are open: an opening comes in front of it, and an ending takes
away the innermost group.
-/

namespace Flowchart

/-- A statement of a body as the grammar reads it, or nothing where the text is
none that the grammar knows. -/
structure Entry where
  statement : Option Statement
  fragment : Fragment
  deriving DecidableEq, Repr

namespace Entry

def ofFragment (fragment : Fragment) : Entry :=
  ⟨Grammar.statement? fragment.text fragment.span.start, fragment⟩

/-- The header of the group that the statement opens. -/
def header? (entry : Entry) : Option GroupHeader :=
  match entry.statement with
  | some (.openGroup header) => some header
  | _ => none

def opens (entry : Entry) : Bool :=
  entry.header?.isSome

def closes (entry : Entry) : Bool :=
  entry.statement == some .closeGroup

theorem opens_eq_false_of_closes {entry : Entry} (h : entry.closes = true) :
    entry.opens = false := by
  have hstatement : entry.statement = some .closeGroup := by
    simpa [closes] using h
  simp [opens, header?, hstatement]

end Entry

namespace Body

def openings (body : List Entry) : ℕ :=
  body.countP Entry.opens

def endings (body : List Entry) : ℕ :=
  body.countP Entry.closes

/-- The first statement opens a group which the others do not end: up to each of
them there are more openings than endings. -/
def StaysOpen (rest : List Entry) : Prop :=
  rest ≠ [] ∧ ∀ inner ∈ rest.inits, inner ≠ [] → endings inner < openings inner

instance : DecidablePred StaysOpen := fun rest =>
  inferInstanceAs (Decidable (rest ≠ [] ∧ ∀ inner ∈ rest.inits, _))

/-- Where the groups were opened that are open behind the body, innermost
first. -/
def openAt (body : List Entry) : List ℕ :=
  (List.range body.length).reverse.filter fun start =>
    StaysOpen (body.drop start)

/-- The number of groups that were opened before the innermost open one. -/
def innermost? (body : List Entry) : Option ℕ :=
  (openAt body).head?.map fun start => openings (body.take start)

@[simp] theorem openings_append (body more : List Entry) :
    openings (body ++ more) = openings body + openings more :=
  List.countP_append

@[simp] theorem endings_append (body more : List Entry) :
    endings (body ++ more) = endings body + endings more :=
  List.countP_append

theorem openings_singleton (entry : Entry) :
    openings [entry] = if entry.opens then 1 else 0 := by
  simp [openings, List.countP_singleton]

theorem endings_singleton (entry : Entry) :
    endings [entry] = if entry.closes then 1 else 0 := by
  simp [endings, List.countP_singleton]

/-! ### One more statement -/

theorem StaysOpen.endings_lt {rest : List Entry} (h : StaysOpen rest) :
    endings rest < openings rest :=
  h.2 rest (by simp) h.1

theorem staysOpen_singleton (entry : Entry) :
    StaysOpen [entry] ↔ entry.opens = true := by
  have hlt : StaysOpen [entry] ↔ endings [entry] < openings [entry] := by
    simp [StaysOpen]
  rw [hlt, openings_singleton, endings_singleton]
  cases hcloses : entry.closes with
  | false => cases entry.opens <;> simp
  | true => simp [Entry.opens_eq_false_of_closes hcloses]

theorem staysOpen_concat {rest : List Entry} (hne : rest ≠ []) (entry : Entry) :
    StaysOpen (rest ++ [entry]) ↔
      StaysOpen rest ∧
        endings (rest ++ [entry]) < openings (rest ++ [entry]) := by
  simp only [StaysOpen, List.mem_inits, List.prefix_concat_iff]
  constructor
  · rintro ⟨-, h⟩
    exact ⟨⟨hne, fun inner hinner => h inner (.inr hinner)⟩,
      h _ (.inl rfl) (by simp)⟩
  · rintro ⟨⟨-, hinner⟩, hlast⟩
    refine ⟨by simp, ?_⟩
    rintro inner (rfl | h) hne
    · exact hlast
    · exact hinner inner h hne

theorem openAt_concat (body : List Entry) (entry : Entry) :
    openAt (body ++ [entry]) =
      (if entry.opens then [body.length] else []) ++
        (openAt body).filter fun start =>
          endings (body.drop start ++ [entry]) <
            openings (body.drop start ++ [entry]) := by
  have hold : ∀ start ∈ (List.range body.length).reverse,
      decide (StaysOpen ((body ++ [entry]).drop start)) =
        (decide (endings (body.drop start ++ [entry]) <
            openings (body.drop start ++ [entry])) &&
          decide (StaysOpen (body.drop start))) := by
    intro start hstart
    have hlt : start < body.length := by simpa using hstart
    have hne : body.drop start ≠ [] := by simpa using hlt
    rw [List.drop_append_of_le_length hlt.le, ← Bool.decide_and]
    exact decide_eq_decide.mpr ((staysOpen_concat hne entry).trans and_comm)
  have hnew : ([body.length].filter fun start =>
      StaysOpen ((body ++ [entry]).drop start)) =
        if entry.opens then [body.length] else [] := by
    simp only [List.filter_cons, List.filter_nil, List.drop_left,
      staysOpen_singleton, Bool.decide_eq_true]
  rw [openAt, List.length_append, List.length_singleton, List.range_succ,
    List.reverse_append, List.reverse_singleton, List.filter_append,
    List.filter_congr hold, ← List.filter_filter, hnew]
  rfl

theorem lt_of_mem_openAt {body : List Entry} {start : ℕ}
    (h : start ∈ openAt body) : start < body.length := by
  simpa using (List.mem_filter.mp h).1

theorem openAt_concat_of_not_closes (body : List Entry) {entry : Entry}
    (h : entry.closes = false) :
    openAt (body ++ [entry]) =
      (if entry.opens then [body.length] else []) ++ openAt body := by
  rw [openAt_concat, List.filter_eq_self.mpr]
  intro start hstart
  have hopen : StaysOpen (body.drop start) := by
    simpa using (List.mem_filter.mp hstart).2
  have hlt := hopen.endings_lt
  rw [decide_eq_true_iff, openings_append, endings_append, endings_singleton, h]
  simp only [Bool.false_eq_true, if_false]
  omega

/-! ### The innermost group -/

/-- The openings behind the place where a group was opened that have no ending
are its own one and those of the groups inside. -/
def HasDepths (body : List Entry) : Prop :=
  ∀ depth start, (openAt body)[depth]? = some start →
    openings (body.drop start) = endings (body.drop start) + (depth + 1)

theorem HasDepths.openAt_concat_of_closes {body : List Entry}
    (h : HasDepths body) {entry : Entry} (hcloses : entry.closes = true) :
    openAt (body ++ [entry]) = (openAt body).tail := by
  have hopens := Entry.opens_eq_false_of_closes hcloses
  have hkept : ∀ depth start, (openAt body)[depth]? = some start →
      decide (endings (body.drop start ++ [entry]) <
        openings (body.drop start ++ [entry])) = decide (depth ≠ 0) := by
    intro depth start hstart
    rw [decide_eq_decide, openings_append, endings_append, endings_singleton,
      openings_singleton, hcloses, hopens, h depth start hstart]
    simp only [Bool.false_eq_true, if_false, if_true]
    omega
  rw [openAt_concat, hopens]
  cases hbody : openAt body with
  | nil => rfl
  | cons innermost outer =>
      rw [hbody] at hkept
      have hhead := hkept 0 innermost rfl
      simp only [Bool.false_eq_true, if_false, List.nil_append, List.tail_cons]
      rw [List.filter_cons_of_neg (by rw [hhead]; decide), List.filter_eq_self]
      intro start hstart
      obtain ⟨depth, hdepth⟩ := List.getElem?_of_mem hstart
      rw [hkept (depth + 1) start hdepth]
      simp

theorem hasDepths (body : List Entry) : HasDepths body := by
  induction body using List.reverseRecOn with
  | nil =>
      intro depth start hstart
      exact absurd hstart (by simp [openAt])
  | append_singleton body entry ih =>
      have hold : ∀ (depth start : ℕ), (openAt body)[depth]? = some start →
          openings ((body ++ [entry]).drop start) + endings [entry] =
            endings ((body ++ [entry]).drop start) + (depth + 1) +
              openings [entry] := by
        intro depth start hstart
        have hlt := lt_of_mem_openAt (List.mem_of_getElem? hstart)
        rw [List.drop_append_of_le_length hlt.le, openings_append,
          endings_append, ih depth start hstart]
        omega
      rw [openings_singleton, endings_singleton] at hold
      intro depth start hstart
      cases hcloses : entry.closes with
      | true =>
          have hopens := Entry.opens_eq_false_of_closes hcloses
          rw [ih.openAt_concat_of_closes hcloses, List.getElem?_tail] at hstart
          have hcount := hold (depth + 1) start hstart
          simp only [hopens, hcloses, Bool.false_eq_true, if_false,
            if_true] at hcount
          omega
      | false =>
          rw [openAt_concat_of_not_closes body hcloses] at hstart
          simp only [hcloses, Bool.false_eq_true, if_false] at hold
          cases hopens : entry.opens with
          | false =>
              simp only [hopens, Bool.false_eq_true, if_false] at hold hstart
              exact hold depth start hstart
          | true =>
              simp only [hopens, if_true] at hold hstart
              cases depth with
              | succ depth => exact hold depth start hstart
              | zero =>
                  obtain rfl : body.length = start := Option.some.inj hstart
                  rw [List.drop_left, openings_singleton, endings_singleton,
                    hopens, hcloses]
                  rfl

theorem openAt_concat_of_closes (body : List Entry) {entry : Entry}
    (h : entry.closes = true) :
    openAt (body ++ [entry]) = (openAt body).tail :=
  (hasDepths body).openAt_concat_of_closes h

end Body

end Flowchart
