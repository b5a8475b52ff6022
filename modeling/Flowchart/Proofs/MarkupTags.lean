import Flowchart.Proofs.LabelReturns

/-!
# Markup in labels

Tags are dropped from a label in one pass.  No tag contains the bracket that
opens another one, so the pass finds every tag of the text; but what stands
around the tags may be a tag itself once it is joined.  That is the only way in
which a label can come to be shown with a tag: trimming its lines neither joins
a tag nor breaks one up.
-/

namespace Flowchart.Label

open Text

variable {text rest inner : List Char}

/-! ### Tags -/

def IsPlain (text : List Char) : Prop :=
  ∀ c ∈ text, c ≠ '<' ∧ c ≠ '>'

/-- What stands between the brackets of a tag. -/
inductive IsMarkup : List Char → Prop
  | opening {c : Char} {rest : List Char} (hc : c.isAlpha = true)
      (hrest : IsPlain rest) : IsMarkup (c :: rest)
  | closing {c : Char} {rest : List Char} (hc : c.isAlpha = true)
      (hrest : IsPlain rest) : IsMarkup ('/' :: c :: rest)

def StartsWithTag (text : List Char) : Prop :=
  ∃ inner rest, IsMarkup inner ∧ text = '<' :: (inner ++ '>' :: rest)

def HasTag (text : List Char) : Prop :=
  ∃ inner, IsMarkup inner ∧ '<' :: (inner ++ ['>']) <:+: text

def dropTags (text : List Char) : List Char :=
  replaceAll afterTag? [] text

/-- A piece in brackets contains tags, and is a tag without them. -/
def HasInterruptedTag (text : List Char) : Prop :=
  ∃ inner, dropTags inner ≠ inner ∧ IsMarkup (dropTags inner) ∧
    '<' :: (inner ++ ['>']) <:+: text

theorem isPlain_cons_iff {c : Char} :
    IsPlain (c :: text) ↔ (c ≠ '<' ∧ c ≠ '>') ∧ IsPlain text :=
  List.forall_mem_cons

theorem ne_of_isAlpha {c : Char} (h : c.isAlpha = true) :
    c ≠ '<' ∧ c ≠ '>' ∧ c ≠ '/' := by
  refine ⟨?_, ?_, ?_⟩ <;> rintro rfl <;> exact absurd h (by decide)

theorem IsMarkup.isPlain (h : IsMarkup inner) : IsPlain inner := by
  cases h with
  | opening hc hrest =>
      obtain ⟨hopen, hclose, -⟩ := ne_of_isAlpha hc
      exact isPlain_cons_iff.mpr ⟨⟨hopen, hclose⟩, hrest⟩
  | closing hc hrest =>
      obtain ⟨hopen, hclose, -⟩ := ne_of_isAlpha hc
      refine isPlain_cons_iff.mpr ⟨by decide, ?_⟩
      exact isPlain_cons_iff.mpr ⟨⟨hopen, hclose⟩, hrest⟩

theorem IsMarkup.open_not_mem (h : IsMarkup inner) : '<' ∉ inner :=
  fun hmem => (h.isPlain _ hmem).1 rfl

theorem dropWhile_eq_cons_iff :
    text.dropWhile (fun d => d != '<' && d != '>') = '>' :: rest ↔
      ∃ body, IsPlain body ∧ text = body ++ '>' :: rest := by
  constructor
  · intro h
    refine ⟨text.takeWhile fun d => d != '<' && d != '>', ?_, ?_⟩
    · intro c hc
      simpa using List.mem_takeWhile_imp hc
    · rw [← h, List.takeWhile_append_dropWhile]
  · rintro ⟨body, hbody, rfl⟩
    rw [List.dropWhile_append_of_pos, List.dropWhile_cons_of_neg (by decide)]
    intro c hc
    simpa using hbody c hc

theorem afterTagName?_eq_some_iff :
    afterTagName? text = some rest ↔ ∃ c body, c.isAlpha = true ∧
      IsPlain body ∧ text = c :: (body ++ '>' :: rest) := by
  cases text with
  | nil => simp [afterTagName?]
  | cons c text =>
      rw [afterTagName?, Option.ite_none_right_eq_some, after?_eq_some_iff,
        List.singleton_append, dropWhile_eq_cons_iff]
      constructor
      · rintro ⟨hc, body, hbody, rfl⟩
        exact ⟨c, body, hc, hbody, rfl⟩
      · rintro ⟨d, body, hd, hbody, heq⟩
        obtain ⟨rfl, rfl⟩ := List.cons.inj heq
        exact ⟨hd, body, hbody, rfl⟩

theorem afterTag?_eq_some_iff :
    afterTag? text = some rest ↔
      ∃ inner, IsMarkup inner ∧ text = '<' :: (inner ++ '>' :: rest) := by
  constructor
  · intro h
    unfold afterTag? at h
    split at h
    next name =>
      obtain ⟨c, body, hc, hbody, rfl⟩ := afterTagName?_eq_some_iff.mp h
      exact ⟨_, .closing hc hbody, rfl⟩
    next name hslash =>
      obtain ⟨c, body, hc, hbody, rfl⟩ := afterTagName?_eq_some_iff.mp h
      exact ⟨_, .opening hc hbody, rfl⟩
    next => cases h
  · rintro ⟨inner, hinner, rfl⟩
    cases hinner with
    | @opening c body hc hbody =>
        have hslash : after? ['/'] (c :: body ++ '>' :: rest) = none := by
          rw [after?_eq_none_iff]
          rintro ⟨more, hmore⟩
          exact (ne_of_isAlpha hc).2.2 (List.cons.inj hmore).1.symm
        rw [afterTag?_cons, if_pos rfl, hslash]
        exact afterTagName?_eq_some_iff.mpr ⟨c, body, hc, hbody, rfl⟩
    | @closing c body hc hbody =>
        exact afterTagName?_eq_some_iff.mpr ⟨c, body, hc, hbody, rfl⟩

theorem startsWithTag_iff :
    StartsWithTag text ↔ (afterTag? text).isSome = true := by
  simp only [Option.isSome_iff_exists, afterTag?_eq_some_iff, StartsWithTag]
  exact exists_comm

theorem StartsWithTag.of_cons {c : Char} (h : StartsWithTag (c :: text)) :
    c = '<' := by
  obtain ⟨inner, rest, -, heq⟩ := h
  exact (List.cons.inj heq).1

/-! ### Dropping tags -/

theorem dropTags_nil : dropTags [] = [] := by
  rw [dropTags, replaceAll]

theorem dropTags_tag (h : IsMarkup inner) (rest : List Char) :
    dropTags ('<' :: (inner ++ '>' :: rest)) = dropTags rest :=
  replaceAll_of_some recognizes_afterTag?.length_lt
    (afterTag?_eq_some_iff.mpr ⟨inner, h, rfl⟩) []

theorem dropTags_cons {c : Char} (h : ¬ StartsWithTag (c :: text)) :
    dropTags (c :: text) = c :: dropTags text := by
  rw [startsWithTag_iff, Bool.not_eq_true, Option.isSome_eq_false_iff,
    Option.isNone_iff_eq_none] at h
  exact replaceAll_of_none h []

theorem dropTags_cons_of_ne {c : Char} (hc : c ≠ '<') (text : List Char) :
    dropTags (c :: text) = c :: dropTags text :=
  dropTags_cons fun h => hc h.of_cons

/-- A text is made up of its tags and of the characters between them. -/
theorem tags_induction {motive : List Char → Prop} (nil : motive [])
    (tag : ∀ inner rest, IsMarkup inner → motive rest →
      motive ('<' :: (inner ++ '>' :: rest)))
    (cons : ∀ c rest, ¬ StartsWithTag (c :: rest) → motive rest →
      motive (c :: rest)) (text : List Char) : motive text := by
  induction hlength : text.length using Nat.strong_induction_on
    generalizing text with
  | h length ih =>
      subst hlength
      by_cases htag : StartsWithTag text
      · obtain ⟨inner, rest, hinner, rfl⟩ := htag
        exact tag inner rest hinner (ih _ (by simp; omega) rest rfl)
      · cases text with
        | nil => exact nil
        | cons c rest => exact cons c rest htag (ih _ (by simp) rest rfl)

/-- Where the text without tags is plain up to a bracket, the text consists of
tags and plain characters up to there. -/
theorem exists_of_dropTags_eq {plain behind : List Char}
    (hplain : IsPlain plain) (h : dropTags text = plain ++ '>' :: behind) :
    ∃ before rest, text = before ++ '>' :: rest ∧
      dropTags before = plain := by
  induction text using tags_induction generalizing plain with
  | nil =>
      rw [dropTags_nil] at h
      exact absurd h.symm (by simp)
  | tag inner rest hinner ih =>
      rw [dropTags_tag hinner] at h
      obtain ⟨before, more, rfl, hbefore⟩ := ih hplain h
      refine ⟨'<' :: (inner ++ '>' :: before), more, by simp, ?_⟩
      rw [dropTags_tag hinner, hbefore]
  | cons c rest htag ih =>
      rw [dropTags_cons htag] at h
      cases plain with
      | nil =>
          obtain ⟨rfl, -⟩ := List.cons.inj h
          exact ⟨[], rest, rfl, dropTags_nil⟩
      | cons d plain =>
          obtain ⟨rfl, hrest⟩ := List.cons.inj h
          obtain ⟨hd, hplain⟩ := isPlain_cons_iff.mp hplain
          obtain ⟨before, more, rfl, hbefore⟩ := ih hplain hrest
          refine ⟨c :: before, more, rfl, ?_⟩
          rw [dropTags_cons_of_ne hd.1, hbefore]

theorem dropTags_append (h : IsPlain (dropTags inner)) (rest : List Char) :
    dropTags (inner ++ '>' :: rest) =
      dropTags inner ++ '>' :: dropTags rest := by
  induction inner using tags_induction with
  | nil =>
      rw [List.nil_append, dropTags_cons_of_ne (by decide), dropTags_nil,
        List.nil_append]
  | tag inner more hinner ih =>
      rw [dropTags_tag hinner] at h ⊢
      rw [← ih h, List.cons_append, List.append_assoc, List.cons_append,
        dropTags_tag hinner]
  | cons c more htag ih =>
      rw [dropTags_cons htag] at h ⊢
      obtain ⟨hc, hmore⟩ := isPlain_cons_iff.mp h
      rw [List.cons_append, dropTags_cons_of_ne hc.1, ih hmore]
      rfl

theorem dropTags_eq_self (h : '<' ∉ text) : dropTags text = text := by
  induction text with
  | nil => exact dropTags_nil
  | cons c text ih =>
      rw [List.mem_cons, not_or] at h
      rw [dropTags_cons_of_ne (Ne.symm h.1), ih h.2]

/-- No tag goes beyond a bracket that opens a piece. -/
theorem dropTags_suffix (before rest : List Char) :
    dropTags ('<' :: rest) <:+ dropTags (before ++ '<' :: rest) := by
  generalize htext : before ++ '<' :: rest = text
  induction text using tags_induction generalizing before with
  | nil => exact absurd htext (by simp)
  | tag inner more hinner ih =>
      cases before with
      | nil => exact htext ▸ List.suffix_refl _
      | cons c before =>
          obtain ⟨-, htext⟩ := List.cons.inj htext
          have hopen : '<' ∉ inner := hinner.open_not_mem
          rw [dropTags_tag hinner]
          -- The bracket stands behind the tag, since it is not inside.
          rcases List.append_eq_append_iff.mp htext with
            ⟨between, rfl, hbetween⟩ | ⟨between, rfl, hbetween⟩
          · cases between with
            | nil => exact absurd (List.cons.inj hbetween).1 (by decide)
            | cons c between =>
                obtain ⟨rfl, -⟩ := List.cons.inj hbetween
                exact absurd (by simp) hopen
          · cases between with
            | nil => exact absurd (List.cons.inj hbetween).1 (by decide)
            | cons c between =>
                obtain ⟨-, hmore⟩ := List.cons.inj hbetween
                exact ih between hmore.symm
  | cons c more htag ih =>
      cases before with
      | nil => exact htext ▸ List.suffix_refl _
      | cons d before =>
          obtain ⟨rfl, hmore⟩ := List.cons.inj htext
          rw [dropTags_cons htag]
          exact (ih before hmore).trans (List.suffix_cons _ _)

/-! ### Tags that are left -/

theorem HasTag.mono (h : HasTag text) {other : List Char}
    (hpart : text <:+: other) : HasTag other := by
  obtain ⟨inner, hinner, htag⟩ := h
  exact ⟨inner, hinner, htag.trans hpart⟩

theorem HasInterruptedTag.mono (h : HasInterruptedTag text) {other : List Char}
    (hpart : text <:+: other) : HasInterruptedTag other := by
  obtain ⟨inner, htags, hinner, hpiece⟩ := h
  exact ⟨inner, htags, hinner, hpiece.trans hpart⟩

theorem hasTag_cons_iff {c : Char} :
    HasTag (c :: text) ↔ StartsWithTag (c :: text) ∨ HasTag text := by
  constructor
  · rintro ⟨inner, hinner, hpart⟩
    rcases List.infix_cons_iff.mp hpart with ⟨rest, hprefix⟩ | hbehind
    · exact .inl ⟨inner, rest, hinner, by simpa using hprefix.symm⟩
    · exact .inr ⟨inner, hinner, hbehind⟩
  · rintro (⟨inner, rest, hinner, heq⟩ | htag)
    · rw [heq]
      exact ⟨inner, hinner, ⟨[], rest, by simp⟩⟩
    · exact htag.mono (List.suffix_cons c text).isInfix

theorem not_hasTag_nil : ¬ HasTag [] := by
  rintro ⟨inner, -, hpart⟩
  exact absurd (List.eq_nil_of_infix_nil hpart) (by simp)

/-- A piece in brackets with tags in it is no tag itself. -/
theorem not_startsWithTag_of_dropTags_ne (htags : dropTags inner ≠ inner)
    (hplain : IsPlain (dropTags inner)) (rest : List Char) :
    ¬ StartsWithTag ('<' :: (inner ++ '>' :: rest)) := by
  rintro ⟨other, more, hother, heq⟩
  have hopen : '<' ∉ other := hother.open_not_mem
  have hself := dropTags_eq_self hopen
  obtain ⟨-, heq⟩ := List.cons.inj heq
  rcases List.append_eq_append_iff.mp heq with
    ⟨between, rfl, -⟩ | ⟨between, rfl, hbetween⟩
  · exact htags (dropTags_eq_self fun hmem =>
      hopen (List.mem_append_left _ hmem))
  · cases between with
    | nil =>
        rw [List.append_nil] at htags
        exact htags hself
    | cons c between =>
        obtain ⟨rfl, -⟩ := List.cons.inj hbetween
        rw [dropTags_append (hself.symm ▸ hother.isPlain)] at hplain
        exact (hplain '>' (by simp)).2 rfl

theorem hasInterruptedTag_of_hasTag_dropTags (h : HasTag (dropTags text)) :
    HasInterruptedTag text := by
  induction text using tags_induction with
  | nil => exact absurd (dropTags_nil ▸ h) not_hasTag_nil
  | tag inner rest hinner ih =>
      rw [dropTags_tag hinner] at h
      exact (ih h).mono ⟨'<' :: (inner ++ ['>']), [], by simp⟩
  | cons c rest htag ih =>
      rw [dropTags_cons htag] at h
      rcases hasTag_cons_iff.mp h with
        ⟨plain, behind, hmarkup, heq⟩ | hbehind
      · -- The tag starts here, so that tags must have been dropped from it.
        obtain ⟨rfl, hrest⟩ := List.cons.inj heq
        obtain ⟨inner, more, rfl, rfl⟩ :=
          exists_of_dropTags_eq hmarkup.isPlain hrest
        refine ⟨inner, ?_, hmarkup, ⟨[], more, by simp⟩⟩
        intro hself
        rw [hself] at hmarkup
        exact htag ⟨inner, more, hmarkup, rfl⟩
      · exact (ih hbehind).mono (List.suffix_cons c rest).isInfix

/-- Dropping tags leaves a tag exactly if one is interrupted by others. -/
theorem hasTag_dropTags_iff :
    HasTag (dropTags text) ↔ HasInterruptedTag text := by
  refine ⟨hasInterruptedTag_of_hasTag_dropTags, ?_⟩
  rintro ⟨inner, htags, hinner, before, rest, rfl⟩
  have hpiece : dropTags ('<' :: (inner ++ '>' :: rest)) =
      '<' :: (dropTags inner ++ '>' :: dropTags rest) := by
    rw [dropTags_cons
      (not_startsWithTag_of_dropTags_ne htags hinner.isPlain rest),
      dropTags_append hinner.isPlain]
  have htag : HasTag (dropTags ('<' :: (inner ++ '>' :: rest))) :=
    ⟨dropTags inner, hinner, ⟨[], dropTags rest, by simp [hpiece]⟩⟩
  have htext : before ++ '<' :: (inner ++ ['>']) ++ rest =
      before ++ '<' :: (inner ++ '>' :: rest) := by simp
  rw [htext]
  exact htag.mono (dropTags_suffix before _).isInfix

/-! ### Reading a text for tags -/

/-- How much of a tag there is at the end of what is read. -/
inductive Progress
  | outside
  | opened
  | slashed
  | inside
  | found
  deriving DecidableEq

namespace Progress

def step (progress : Progress) (c : Char) : Progress :=
  if progress = found then found
  else if c = '<' then opened
  else
    match progress with
    | opened =>
      if c = '/' then slashed else if c.isAlpha then inside else outside
    | slashed => if c.isAlpha then inside else outside
    | inside => if c = '>' then found else inside
    | _ => outside

/-- The progress behind the text. -/
def read (progress : Progress) (text : List Char) : Progress :=
  text.foldl step progress

/-- The text starts with what is missing from a tag. -/
def isCompletedBy (progress : Progress) (text : List Char) : Bool :=
  match progress with
  | outside => false
  | opened => (afterTag? ('<' :: text)).isSome
  | slashed => (afterTagName? text).isSome
  | inside =>
    (after? ['>'] (text.dropWhile fun d => d != '<' && d != '>')).isSome
  | found => true

/-- The progress behind white space. -/
def settle : Progress → Progress
  | found => found
  | inside => inside
  | _ => outside

theorem read_cons (progress : Progress) (c : Char) (text : List Char) :
    progress.read (c :: text) = (progress.step c).read text :=
  rfl

theorem read_append (progress : Progress) (text more : List Char) :
    progress.read (text ++ more) = (progress.read text).read more :=
  List.foldl_append

theorem isCompletedBy_step (progress : Progress) (c : Char)
    (text : List Char) :
    (progress.step c).isCompletedBy text =
      (progress.isCompletedBy (c :: text) ||
        (afterTag? (c :: text)).isSome) := by
  by_cases hopen : c = '<'
  · subst hopen
    cases progress <;>
      simp [step, isCompletedBy, afterTag?_cons, afterTagName?,
        after?_singleton_cons]
  have hnone : afterTag? (c :: text) = none := by
    rw [afterTag?_cons, if_neg hopen]
  rw [hnone, Option.isSome_none, Bool.or_false]
  cases progress with
  | outside => simp [step, isCompletedBy, hopen]
  | opened =>
      by_cases hslash : c = '/'
      · simp [step, isCompletedBy, afterTag?_cons, hslash]
      · have hname : afterTag? ('<' :: c :: text) =
            afterTagName? (c :: text) := by
          simp [afterTag?_cons, after?_singleton_cons, Ne.symm hslash]
        rw [isCompletedBy, hname, afterTagName?]
        by_cases hletter : c.isAlpha = true
        · simp [step, isCompletedBy, hopen, hslash, hletter]
        · simp [step, isCompletedBy, hopen, hslash, hletter]
  | slashed =>
      rw [isCompletedBy, afterTagName?]
      by_cases hletter : c.isAlpha = true
      · simp [step, isCompletedBy, hopen, hletter]
      · simp [step, isCompletedBy, hopen, hletter]
  | inside =>
      by_cases hclose : c = '>'
      · simp [step, isCompletedBy, hclose]
      · simp [step, isCompletedBy, hopen, hclose]
  | found => rfl

theorem read_eq_found_iff (progress : Progress) (text : List Char) :
    progress.read text = found ↔
      progress.isCompletedBy text = true ∨ HasTag text := by
  induction text generalizing progress with
  | nil =>
      have hnil : progress.isCompletedBy [] = decide (progress = found) := by
        cases progress <;> rfl
      simp [read, hnil, not_hasTag_nil]
  | cons c text ih =>
      rw [read_cons, ih, isCompletedBy_step, hasTag_cons_iff,
        startsWithTag_iff, Bool.or_eq_true, or_assoc]

theorem settle_eq_found_iff {progress : Progress} :
    progress.settle = found ↔ progress = found := by
  cases progress <;> simp [settle]

theorem settle_settle (progress : Progress) :
    progress.settle.settle = progress.settle := by
  cases progress <;> rfl

theorem step_of_isWhiteSpace {c : Char} (h : isWhiteSpace c = true)
    (progress : Progress) : progress.step c = progress.settle := by
  have hcodes : ∀ code ∈ whiteSpaceCodes,
      progress.step (Char.ofNat code) = progress.settle := by
    cases progress <;> decide +kernel
  simpa using hcodes c.toNat (mem_whiteSpaceCodes h)

theorem read_eq_self {white : List Char}
    (hwhite : ∀ c ∈ white, isWhiteSpace c = true) {progress : Progress}
    (h : progress.settle = progress) : progress.read white = progress := by
  induction white with
  | nil => rfl
  | cons c white ih =>
      obtain ⟨hc, hothers⟩ := List.forall_mem_cons.mp hwhite
      rw [read_cons, step_of_isWhiteSpace hc, h, ih hothers]

theorem settle_read {white : List Char}
    (hwhite : ∀ c ∈ white, isWhiteSpace c = true) (progress : Progress) :
    (progress.read white).settle = progress.settle := by
  cases white with
  | nil => rfl
  | cons c white =>
      obtain ⟨hc, hothers⟩ := List.forall_mem_cons.mp hwhite
      rw [read_cons, step_of_isWhiteSpace hc,
        read_eq_self hothers progress.settle_settle, settle_settle]

/-- White space around a text does not count if nothing, or more white space,
stands around it. -/
theorem settle_read_trim {progress : Progress}
    (h : progress.settle = progress) (text : List Char) :
    (progress.read (trim text)).settle = (progress.read text).settle := by
  obtain ⟨tail, htext, htail⟩ := exists_eq_trim text
  have hstart : ∀ c ∈ text.takeWhile isWhiteSpace, isWhiteSpace c = true :=
    fun _ hc => List.mem_takeWhile_imp hc
  conv_rhs => rw [htext]
  rw [read_append, read_eq_self hstart h, read_append, settle_read htail]

theorem settle_read_intercalate {progress : Progress}
    (h : progress.settle = progress) (texts : List (List Char)) :
    (progress.read (['\n'].intercalate (texts.map trim))).settle =
      (progress.read (['\n'].intercalate texts)).settle := by
  induction texts generalizing progress with
  | nil => rfl
  | cons text below ih =>
      have hfeed : ∀ progress : Progress,
          progress.read ['\n'] = progress.settle := fun progress =>
        step_of_isWhiteSpace (isWhiteSpace_newline '\n' (by simp)) progress
      cases below with
      | nil => simpa using settle_read_trim h text
      | cons next below =>
          rw [List.map_cons, List.map_cons, List.intercalate_cons_cons,
            List.intercalate_cons_cons, ← List.map_cons]
          simp only [read_append, hfeed]
          rw [settle_read_trim h, ih (settle_settle _)]

end Progress

/-- Trimming the lines of a text neither joins a tag nor breaks one up. -/
theorem hasTag_trimLines_iff : HasTag (trimLines text) ↔ HasTag text := by
  have hreads : ∀ text : List Char, HasTag text ↔
      (Progress.read .outside text).settle = .found := by
    intro text
    rw [Progress.settle_eq_found_iff, Progress.read_eq_found_iff]
    simp [Progress.isCompletedBy]
  have hlines : ['\n'].intercalate (lines text) = text :=
    List.intercalate_splitOn '\n'
  rw [hreads, hreads, trimLines, Progress.settle_read_trim rfl,
    Progress.settle_read_intercalate rfl, hlines]

/-! ### Labels with tags -/

/-- The text of a label before its markup is dropped. -/
def marked (raw : List Char) (quoted : Bool) : List Char :=
  replaceAll afterBreakTag? ['\n']
    (if quoted then replaceAll afterBrokenLine? [' '] (unescape raw) else raw)

/-- A label is shown with a tag exactly if a tag is interrupted by others in its
text: all tags are dropped, but only once. -/
theorem hasTag_normalize_iff (raw : List Char) (quoted : Bool) :
    HasTag (normalize raw quoted) ↔
      HasInterruptedTag (marked raw quoted) := by
  have hnormalize : normalize raw quoted =
      trimLines (dropTags (marked raw quoted)) := rfl
  rw [hnormalize, hasTag_trimLines_iff, hasTag_dropTags_iff]

/-- The tag `<b>` interrupts the tag `<i>`, which is left. -/
theorem not_forall_not_hasTag_normalize :
    ¬ ∀ raw quoted, ¬ HasTag (normalize raw quoted) := by
  intro hnone
  have hshown : normalize "<<b>i>x".toList false = "<i>x".toList := by
    decide +kernel
  have hmarkup : IsMarkup ['i'] := .opening rfl fun _ hc => nomatch hc
  apply hnone "<<b>i>x".toList false
  rw [hshown]
  exact ⟨['i'], hmarkup, ⟨[], ['x'], rfl⟩⟩

end Flowchart.Label
