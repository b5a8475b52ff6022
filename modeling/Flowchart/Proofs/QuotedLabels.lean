import Flowchart.Proofs.Quotes
import Flowchart.Proofs.Reading
import Flowchart.Proofs.Trimming
import Flowchart.Source.Sanitize

/-!
# Labels with and without quotes

A label in brackets may be given quotes, and its backslashes and quotes a
backslash, without a change of what is read: escapes are resolved before the
label is shown, and a label of one line has no other use for the quotes.
-/

namespace Flowchart

namespace Label

open Text

theorem unescape_cons {c : Char} (h : c ≠ '\\') (rest : List Char) :
    unescape (c :: rest) = c :: unescape rest := by
  rw [unescape] <;> simp_all

theorem unescape_escape (text : List Char) : unescape (escape text) = text := by
  induction text with
  | nil => rfl
  | cons c text ih =>
      rw [escape_cons]
      split
      next hc =>
        rcases hc with hc | hc
        · subst hc
          simp [unescape, ih]
        · subst hc
          simp [unescape, ih]
      next hc =>
        rw [not_or] at hc
        rw [List.singleton_append, unescape_cons hc.1, ih]

theorem afterBrokenLine?_eq_none {text : List Char} (h : '\n' ∉ text) :
    afterBrokenLine? text = none := by
  have hblank : '\n' ∉ text.dropWhile isBlank :=
    fun hmem => h ((List.dropWhile_sublist _).subset hmem)
  unfold afterBrokenLine? afterLineBreak?
  split <;> simp_all

theorem replaceAll_afterBrokenLine? {text : List Char} (h : '\n' ∉ text)
    (replacement : List Char) :
    replaceAll afterBrokenLine? replacement text = text := by
  induction text with
  | nil => rw [replaceAll]
  | cons c below ih =>
      rw [replaceAll, afterBrokenLine?_eq_none h]
      simp only
      rw [ih fun hmem => h (List.mem_cons_of_mem c hmem)]

theorem normalize_escape {body : List Char} (h : '\n' ∉ body) :
    normalize (escape body) true = normalize body false := by
  unfold normalize
  rw [if_pos rfl, if_neg (by decide), unescape_escape,
    replaceAll_afterBrokenLine? h]

end Label

namespace Grammar

open Text

theorem quotedInside_cons {c : Char} (hslash : c ≠ '\\') (hquote : c ≠ '"')
    (rest : List Char) :
    quotedInside (c :: rest) =
      (c :: (quotedInside rest).1, (quotedInside rest).2) := by
  rw [quotedInside] <;> simp_all

theorem quotedInside_escape (text rest : List Char) :
    quotedInside (escape text ++ '"' :: rest) = (escape text, '"' :: rest) := by
  induction text with
  | nil => rfl
  | cons c text ih =>
      rw [escape_cons, List.append_assoc]
      split
      next => simp [quotedInside, ih]
      next hc =>
        rw [not_or] at hc
        rw [List.singleton_append, List.singleton_append,
          quotedInside_cons hc.1 hc.2, ih]

theorem quotedString?_escape (text rest : List Char) :
    quotedString? ('"' :: (escape text ++ '"' :: rest)) =
      some (escape text, rest) := by
  rw [quotedString?, after?_singleton, Option.bind_some, quotedInside_escape]
  simp only [after?_singleton, Option.map_some]

/-- The grammar takes the whole text for the body of a label in brackets, and
takes it without quotes. -/
structure IsLabelBody (body : List Char) : Prop where
  opens : Sanitize.opensLabel body = true
  unquoted : (body.dropWhile isFiller).head? ≠ some '"'
  ends : balanced? [']'] 0 (body ++ [']']) = some (body, [])
  line : '\n' ∉ body

theorem balanced?_append {depth : Nat} {body : List Char}
    (h : balanced? [']'] depth (body ++ [']']) = some (body, []))
    (rest : List Char) :
    balanced? [']'] depth (body ++ ']' :: rest) = some (body, rest) := by
  induction body generalizing depth with
  | nil =>
      by_cases hdepth : depth = 0
      · subst hdepth
        rfl
      · simp [balanced?, hdepth] at h
  | cons c body ih =>
      unfold balanced? at h
      rw [List.cons_append] at h ⊢
      unfold balanced?
      by_cases hclosing : depth = 0 ∧ c = ']'
      · obtain ⟨rfl, rfl⟩ := hclosing
        simp [after?, List.isPrefixOf?] at h
      · have hnone : ∀ rest, (if depth = 0 then after? [']'] (c :: rest)
            else none) = none := by
          intro rest
          split
          next hdepth =>
            rw [after?_eq_none_iff]
            intro hprefix
            have hc : ']' = c := by simpa using hprefix
            exact hclosing ⟨hdepth, hc.symm⟩
          next => rfl
        simp only [hnone, Option.map_eq_some_iff, Prod.exists, Prod.mk.injEq,
          List.cons.injEq, true_and] at h ⊢
        obtain ⟨inner, after, hread, rfl, rfl⟩ := h
        exact ⟨inner, rest, ih hread, rfl, rfl⟩

theorem head?_dropWhile_append {inClass : Char → Bool} (text : List Char)
    {c : Char} (hc : inClass c = false) (rest : List Char) :
    ((text ++ c :: rest).dropWhile inClass).head? =
      ((text.dropWhile inClass).head?).or (some c) := by
  rw [List.dropWhile_append]
  split
  next hempty =>
    rw [List.isEmpty_iff.mp hempty, List.dropWhile_cons_of_neg (by simp [hc])]
    rfl
  next hne =>
    rw [List.head?_append]
    rfl

theorem quotedString?_eq_none {text : List Char} (h : text.head? ≠ some '"') :
    quotedString? text = none := by
  have hnone : after? ['"'] text = none := by
    rw [after?_eq_none_iff]
    rintro ⟨rest, rfl⟩
    exact h rfl
  rw [quotedString?, hnone, Option.bind_none]

theorem label?_bare {body : List Char} (h : IsLabelBody body)
    (rest : List Char) :
    label? [']'] (body ++ ']' :: rest) =
      some (Label.normalize body false, rest) := by
  have hquoted : quotedLabel? [']'] (body ++ ']' :: rest) = none := by
    rw [quotedLabel?, quotedString?_eq_none, Option.bind_none]
    rw [head?_dropWhile_append body (by decide)]
    have hunquoted := h.unquoted
    cases hhead : (body.dropWhile isFiller).head? with
    | none => simp
    | some c => simpa [hhead] using hunquoted
  rw [label?, hquoted]
  simp only [balanced?_append h.ends, Option.map_some]

/-- A label in quotes is read up to its last quote, whatever it says. -/
theorem label?_escape {first : Char} (hfirst : isFiller first = false)
    (closing body rest : List Char) :
    label? (first :: closing)
        ('"' :: (escape body ++ '"' :: (first :: closing ++ rest))) =
      some (Label.normalize (escape body) true, rest) := by
  have hclose : after? (first :: closing) (first :: closing ++ rest) =
      some rest := after?_append _ _
  have hquote : ('"' :: (escape body ++
      '"' :: (first :: closing ++ rest))).dropWhile isFiller =
      '"' :: (escape body ++ '"' :: (first :: closing ++ rest)) := rfl
  have hdelimiter : (first :: closing ++ rest).dropWhile isFiller =
      first :: closing ++ rest :=
    List.dropWhile_cons_of_neg (by simp [hfirst])
  rw [label?, quotedLabel?, hquote, quotedString?_escape, Option.bind_some]
  simp only [hdelimiter, hclose, Option.map_some]

theorem label?_quoted {body : List Char} (h : '\n' ∉ body) (rest : List Char) :
    label? [']'] ('"' :: (escape body ++ '"' :: ']' :: rest)) =
      some (Label.normalize body false, rest) := by
  rw [← Label.normalize_escape h]
  exact label?_escape (by decide) [] body rest

theorem definition?_bracket {text label rest : List Char}
    (hhead : ∀ c ∈ text.head?, c ≠ '[' ∧ c ≠ '(')
    (hlabel : label? [']'] text = some (label, rest)) :
    definition? ('[' :: text) =
      some (⟨.rectangle, String.ofList label⟩, rest) := by
  have hround : ∀ more, after? ('(' :: more) ('[' :: text) = none := by
    simp [after?_eq_none_iff]
  have hcurly : ∀ more, after? ('{' :: more) ('[' :: text) = none := by
    simp [after?_eq_none_iff]
  have hsquare : ∀ c ∈ ['[', '('], after? ['[', c] ('[' :: text) = none := by
    intro c hc
    rw [after?_eq_none_iff]
    rintro ⟨more, hmore⟩
    have hne := hhead c (by rw [← (List.cons.inj hmore).2]; rfl)
    simp only [List.mem_cons, List.not_mem_nil, or_false] at hc
    tauto
  simp [definition?, Delimiter.all, Delimiter.read?, hround, hcurly, hsquare,
    hlabel]

theorem definition?_bare {body : List Char} (h : IsLabelBody body)
    (rest : List Char) :
    definition? ('[' :: (body ++ ']' :: rest)) =
      some (⟨.rectangle, String.ofList (Label.normalize body false)⟩, rest) := by
  apply definition?_bracket _ (label?_bare h rest)
  have hopens := h.opens
  cases body with
  | nil => exact absurd hopens (by decide)
  | cons c body =>
      intro d hd
      obtain rfl : c = d := by simpa using hd
      simp [Sanitize.opensLabel] at hopens
      tauto

theorem definition?_quoted {body : List Char} (h : '\n' ∉ body)
    (rest : List Char) :
    definition? (Sanitize.quotedLabel body ++ rest) =
      some (⟨.rectangle, String.ofList (Label.normalize body false)⟩, rest) := by
  have hshape : Sanitize.quotedLabel body ++ rest =
      '[' :: '"' :: (escape body ++ '"' :: ']' :: rest) := by
    simp [Sanitize.quotedLabel]
  rw [hshape]
  apply definition?_bracket _ (label?_quoted h rest)
  rintro c ⟨rfl⟩
  decide

/-! ### Nodes with such labels -/

/-- The whole text is an id. -/
def IsName (text : List Char) : Prop :=
  id? text = some (text, [])

theorem idTail_append {name rest : List Char} (h : idTail name = (name, []))
    (hends : endsId rest = true) (hhyphen : rest.head? ≠ some '-') :
    idTail (name ++ rest) = (name, rest) := by
  induction name with
  | nil =>
      cases rest with
      | nil => rfl
      | cons c rest =>
          have hid : isIdChar c = false := by simpa [endsId] using hends
          have hc : (c == '-') = false := by simpa using hhyphen
          rw [List.nil_append, idTail, hid, hc]
          simp
  | cons c name ih =>
      have hsame : endsId (name ++ rest) = endsId name := by
        cases name with
        | nil => exact hends
        | cons => rfl
      unfold idTail at h
      rw [List.cons_append, idTail, hsame]
      split at h
      next hc =>
        simp only [Prod.mk.injEq, List.cons.injEq, true_and] at h
        rw [if_pos hc, ih (Prod.ext h.1 h.2)]
      next => exact absurd (Prod.mk.inj h).1 (by simp)

theorem id?_append {name rest : List Char} (h : IsName name)
    (hends : endsId rest = true) (hhyphen : rest.head? ≠ some '-') :
    id? (name ++ rest) = some (name, rest) := by
  unfold IsName id? at h
  split at h
  next => exact absurd h (by simp)
  next hstart =>
    have hsame : endsId (name ++ rest) = endsId name := by
      cases name with
      | nil => exact hends
      | cons => rfl
    rw [id?, hsame, if_neg hstart,
      idTail_append (Option.some.inj h) hends hhyphen]

theorem id?_bracket {name : List Char} (h : IsName name) (rest : List Char) :
    id? (name ++ '[' :: rest) = some (name, '[' :: rest) :=
  id?_append h rfl (by simp)

theorem mention?_of_none {text id behind : List Char}
    (hid : id? text = some (id, behind)) (hnone : definition? behind = none) :
    mention? 0 text =
      some (⟨String.ofList id, none, Span.nowhere⟩, skipClass behind) := by
  simp [mention?, hid, hnone, Span.ofBounds, Span.nowhere, Span.ofLength]

theorem mention?_of_definition? {text id behind rest : List Char}
    {definition : Definition} (hid : id? text = some (id, behind))
    (hdefinition : definition? behind = some (definition, rest)) :
    mention? 0 text =
      some (⟨String.ofList id, some definition, Span.nowhere⟩,
        skipClass rest) := by
  simp [mention?, hid, hdefinition, Span.ofBounds, Span.nowhere, Span.ofLength]

end Grammar

end Flowchart
