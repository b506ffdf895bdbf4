import Smolweb.Finger.Webfinger
import Smolweb.Lib.QueryString

/-!
# What a WebFinger request asks for

A server that reads the query of the request URL finds the resource and the relations that were
asked about, whatever characters they hold (`queryPairs_requestUrl`).
-/

namespace Smolweb.Finger

open QueryString

theorem valueSet_isReserved : ValueSet isReserved := ⟨by decide, by decide, by decide⟩

/-- What the query of a request is made from. -/
def requestPairs (resource : Text) (rels : List Text) : List (Text × Text) :=
  ("resource".toList, resource) :: rels.map fun rel => ("rel".toList, rel)

/-- The loop appends the pairs of the relations, each behind an `&`. -/
theorem foldl_rels (first : Text × Text) (rels : List Text) (url : Text) :
    rels.foldl (fun url rel => url ++ "&rel=".toList ++ UrlPath.encode isReserved rel)
        (url ++ pair isReserved first) =
      url ++ queryString isReserved (first :: rels.map fun rel => ("rel".toList, rel)) := by
  induction rels generalizing first url with
  | nil => rfl
  | cons rel rels ih =>
    have hnext : url ++ pair isReserved first ++ "&rel=".toList ++ UrlPath.encode isReserved rel =
        url ++ pair isReserved first ++ ['&'] ++ pair isReserved ("rel".toList, rel) := by
      simp [pair]
    rw [List.foldl_cons, hnext, ih ("rel".toList, rel)]
    simp [queryString, Text.joinFields_cons]

theorem requestUrl_eq (host resource : Text) (rels : List Text) :
    requestUrl UrlPath.encode host resource rels = "https://".toList ++ host ++ wellKnownPath ++
      '?' :: queryString isReserved (requestPairs resource rels) := by
  have hloop := foldl_rels ("resource".toList, resource) rels
    ("https://".toList ++ host ++ wellKnownPath ++ ['?'])
  rw [← requestPairs] at hloop
  simp only [requestUrl, pair, List.append_assoc] at hloop ⊢
  exact hloop

/-- The pairs in the query of a URL. -/
def queryPairs (url : Text) : List (Text × Option Text) :=
  ((Text.splitOnce '?' url).map fun p => readPairs p.2).getD []

/-- **A request asks for what it was made from**: the resource, and the relations in their order. -/
theorem queryPairs_requestUrl {percentEncode : (Char → Bool) → Text → Text}
    (hencode : UrlPath.Encodes isReserved (percentEncode isReserved)) {host : Text}
    (hhost : '?' ∉ host) (resource : Text) (rels : List Text) :
    queryPairs (requestUrl percentEncode host resource rels) =
      ("resource".toList, some resource) :: rels.map fun rel => ("rel".toList, some rel) := by
  have hurl : requestUrl percentEncode host resource rels =
      requestUrl UrlPath.encode host resource rels := by
    unfold requestUrl
    rw [hencode.eq]
  have hbefore : '?' ∉ "https://".toList ++ host ++ wellKnownPath := by
    intro h
    rcases List.mem_append.mp h with h | h
    · rcases List.mem_append.mp h with h | h
      · exact absurd h (by decide)
      · exact hhost h
    · exact absurd h (by decide)
  have hnames : ∀ p ∈ requestPairs resource rels, '=' ∉ p.1 ∧ '&' ∉ p.1 := by
    intro p hp
    rcases List.mem_cons.mp hp with rfl | hp
    · show '=' ∉ "resource".toList ∧ '&' ∉ "resource".toList
      decide
    · obtain ⟨rel, -, rfl⟩ := List.mem_map.mp hp
      show '=' ∉ "rel".toList ∧ '&' ∉ "rel".toList
      decide
  have hne : requestPairs resource rels ≠ [] := List.cons_ne_nil _ _
  rw [hurl, requestUrl_eq, queryPairs, Text.splitOnce_append hbefore, Option.map_some,
    Option.getD_some]
  simp only [readPairs_queryString valueSet_isReserved hne hnames]
  rw [requestPairs, List.map_cons, List.map_map]
  rfl

theorem queryPairs_requestUrl_acct :
    queryPairs (requestUrl UrlPath.encode "a.b".toList (acct "c&d=e+f".toList "g?%41".toList)
        ["http://h/i".toList]) =
      [("resource".toList, some (acct "c&d=e+f".toList "g?%41".toList)),
        ("rel".toList, some "http://h/i".toList)] :=
  queryPairs_requestUrl (UrlPath.encodes_encode isReserved) (by decide) _ _

end Smolweb.Finger
