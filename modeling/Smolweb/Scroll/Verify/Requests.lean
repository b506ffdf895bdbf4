import Smolweb.Scroll.Wire

/-!
# Scroll requests are read back as written

The flag, the languages and the end of the line share one string. A space and a comma are told
apart from the parts they separate (`languages_eq`), and a flag is told from a language that
begins with no plus (`stripPrefix_plus`), so a request comes back (`parseRequest_of_requestLine`).
-/

namespace Smolweb.Scroll

/-- A language tag that comes through a request line. -/
structure SendableLanguage (language : Text) : Prop where
  ne_nil : language ≠ []
  trimmed : Text.trim language = language
  comma : ',' ∉ language
  oneLine : language.OneLine
  plus : ¬['+'] <+: language

/-- The languages of a request do not look like the flag. -/
theorem not_plus_joinFields {languages : List Text} (h : ∀ l ∈ languages, SendableLanguage l) :
    ¬['+'] <+: Text.joinFields ',' languages := by
  cases languages with
  | nil => simp [Text.joinFields]
  | cons l languages =>
    have hl := h l List.mem_cons_self
    intro hplus
    cases languages with
    | nil => exact hl.plus hplus
    | cons u languages =>
      rw [Text.joinFields_cons l (List.cons_ne_nil u languages)] at hplus
      exact hl.plus (List.prefix_of_prefix_length_le hplus (List.prefix_append l _)
        (List.length_pos_of_ne_nil hl.ne_nil))

/-- The server keeps every language as it is. -/
theorem languages_eq {languages : List Text} (h : ∀ l ∈ languages, SendableLanguage l) :
    (((Text.joinFields ',' languages).splitOn ',').map Text.trim).filter (fun l => !l.isEmpty) =
      languages := by
  rw [Text.splitOn_joinFields fun l hl => (h l hl).comma]
  split
  · next hnil =>
    rw [hnil]
    rfl
  · have htrim : languages.map Text.trim = languages := by
      rw [List.map_congr_left (g := id) fun l hl => (h l hl).trimmed, List.map_id]
    rw [htrim, List.filter_eq_self]
    intro l hl
    simp [(h l hl).ne_nil]

/-- What follows the space of a request line. -/
def languageField (languages : List Text) (metadata : Bool) : Text :=
  (if metadata then ['+'] else []) ++ Text.joinFields ',' languages

theorem requestLine_eq (uri : Text) (languages : List Text) (metadata : Bool) :
    requestLine uri languages metadata =
      uri ++ ' ' :: languageField languages metadata ++ ['\r', '\n'] := by
  simp [requestLine, languageField]

theorem oneLine_languageField {languages : List Text} (h : ∀ l ∈ languages, SendableLanguage l)
    (metadata : Bool) : (languageField languages metadata).OneLine := by
  have hlist : (Text.joinFields ',' languages).OneLine :=
    (Text.oneLine_joinFields rfl).mpr fun l hl => (h l hl).oneLine
  cases metadata with
  | true => exact Text.oneLine_cons.mpr ⟨rfl, hlist⟩
  | false => exact hlist

/-- The server tells the flag from the languages. -/
theorem stripPrefix_plus {languages : List Text} (h : ∀ l ∈ languages, SendableLanguage l)
    (metadata : Bool) : Text.stripPrefix ['+'] (languageField languages metadata) =
      if metadata then some (Text.joinFields ',' languages) else none := by
  cases metadata with
  | true => rw [languageField, if_pos rfl, Text.stripPrefix_append, if_pos rfl]
  | false => exact if_neg (not_plus_joinFields h)

/-- **Requests are read back** as they were written. -/
theorem parseRequest_of_requestLine {uri : Text} {languages : List Text} (metadata : Bool)
    (hne : uri ≠ []) (hspace : ' ' ∉ uri) (hline : uri.OneLine) (hmark : ¬['\uFEFF'] <+: uri)
    (hlanguages : ∀ l ∈ languages, SendableLanguage l) :
    parseRequest (requestLine uri languages metadata) = some { uri, languages, metadata } := by
  have hone : (uri ++ ' ' :: languageField languages metadata).OneLine :=
    hline.append (Text.oneLine_cons.mpr ⟨rfl, oneLine_languageField hlanguages metadata⟩)
  have hmark' : ¬['\uFEFF'] <+: uri ++ ' ' :: languageField languages metadata := by
    intro h
    exact hmark (List.prefix_of_prefix_length_le h (List.prefix_append uri _)
      (List.length_pos_of_ne_nil hne))
  have huri : ¬uri.isEmpty = true := mt List.isEmpty_iff.mp hne
  rw [parseRequest, requestLine_eq, hone.trimEnd_crlf, if_neg hmark',
    Text.splitOnce_append hspace, Option.getD_some]
  simp only
  rw [if_neg huri, stripPrefix_plus hlanguages]
  cases metadata with
  | true => simp only [if_true, languages_eq hlanguages]
  | false =>
    have hfield : languageField languages false = Text.joinFields ',' languages := rfl
    simp only [Bool.false_eq_true, if_false, hfield, languages_eq hlanguages]

/-- The flag in front of a list of two, and in front of none. -/
theorem parseRequest_of_requestLine_flag :
    parseRequest (requestLine "scroll://x/".toList ["en-US".toList, "fr".toList] true) =
        some ⟨"scroll://x/".toList, ["en-US".toList, "fr".toList], true⟩ ∧
      parseRequest (requestLine "scroll://x/".toList [] true) =
        some ⟨"scroll://x/".toList, [], true⟩ := by
  have hsendable : ∀ l ∈ ["en-US".toList, "fr".toList], SendableLanguage l := by
    intro l hl
    simp only [List.mem_cons, List.not_mem_nil, or_false] at hl
    obtain rfl | rfl := hl
    · exact ⟨by decide, by decide, by decide, by decide, by decide⟩
    · exact ⟨by decide, by decide, by decide, by decide, by decide⟩
  constructor
  · exact parseRequest_of_requestLine true (by decide) (by decide) (by decide) (by decide) hsendable
  · exact parseRequest_of_requestLine true (by decide) (by decide) (by decide) (by decide) (by simp)

end Smolweb.Scroll
