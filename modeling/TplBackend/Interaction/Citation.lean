import TplBackend.Interaction.Resume
import TplBackend.Library.Redirect

/-! The links of citations, and the pages they lead to. -/

namespace TplBackend.Interaction

open JsonText Raise Text Url

namespace Routes

/-- What the `Location` of `citation_source` says. -/
def citationSource (decimal : Char → Option (Fin 10)) (port : WebInteractionPort) (evidenceId : Str)
    (principal : Principal) : Except AppException Str := do
  let normalized ← uuid decimal evidenceId "resource_invalid"
  let resolution ← port.resolveCitationSource normalized principal
  let location := resolution.location
  require (¬ (¬ ['/'] <+: location ∨ ['/', '/'] <+: location ∨ '\\' ∈ location ∨ '\x00' ∈ location))
    (badRequestError "The citation source could not be resolved" "source_invalid")
  return redirectLocation location

end Routes

section Links

theorem hexValue_toLower (c : Char) : hexValue c.toLower = hexValue c := by
  by_cases upper : c.val ≥ 'A'.val ∧ c.val ≤ 'Z'.val
  · have table : ∀ i : Fin 26, hexValue (Char.ofNat (65 + i)).toLower =
        hexValue (Char.ofNat (65 + i)) := by decide
    have A : 'A'.val.toNat = 65 := rfl
    have Z : 'Z'.val.toNat = 90 := rfl
    simp only [ge_iff_le, UInt32.le_iff_toNat_le] at upper
    have place : c.toNat = 65 + (c.toNat - 65) ∧ c.toNat - 65 < 26 := by
      simp only [Char.toNat]
      omega
    have same : Char.ofNat (65 + (c.toNat - 65)) = c := by
      rw [← place.1, Char.ofNat_toNat]
    have entry := table ⟨c.toNat - 65, place.2⟩
    rwa [same] at entry
  · have same : c.toLower = c := dif_neg upper
    rw [same]

theorem toLower_hyphen {c : Char} : c.toLower = '-' ↔ c = '-' := by
  constructor
  · intro lower
    have plain : isLetter c = false := by
      rw [← isLetter_toLower, lower]
      rfl
    rwa [toLower_eq_self plain] at lower
  · rintro rfl
    rfl

theorem digits_lower (text : Str) : ((asciiLower text).filter (· ≠ '-')).map hexValue =
    (text.filter (· ≠ '-')).map hexValue := by
  induction text with
  | nil => rfl
  | cons c text ih =>
      have lowered : asciiLower (c :: text) = c.toLower :: asciiLower text := rfl
      rw [lowered]
      by_cases hyphen : c = '-'
      · rw [List.filter_cons_of_neg (by simp [toLower_hyphen.mpr hyphen]),
          List.filter_cons_of_neg (by simp [hyphen])]
        exact ih
      · have lower : c.toLower ≠ '-' := fun same => hyphen (toLower_hyphen.mp same)
        rw [List.filter_cons_of_pos (by simpa using lower),
          List.filter_cons_of_pos (by simpa using hyphen), List.map_cons, List.map_cons,
          hexValue_toLower, ih]

variable {decimal : Char → Option (Fin 10)} {port : WebInteractionPort} {principal : Principal}

theorem BrowserCitation.names_evidence (citation : BrowserCitation) : ∃ evidenceId : Str,
    citation.sourceHref = Interaction.citationSource evidenceId ∧ '/' ∉ evidenceId ∧
      citation.evidenceId.Spells evidenceId := by
  obtain ⟨evidenceId, length, chars, href⟩ := citation.sourceHref_pattern
  refine ⟨evidenceId, href, ?_, ?_⟩
  · intro member
    exact absurd (List.all_eq_true.mp chars '/' member) (by decide)
  · have same := citation.source_matches_evidence
    rw [href, Interaction.citationSource, Interaction.citationSource] at same
    simp only [asciiLower, List.map_append] at same
    have inner := List.append_cancel_left (List.append_cancel_right same)
    calc
      _ = ((asciiLower evidenceId).filter (· ≠ '-')).map hexValue := (digits_lower evidenceId).symm
      _ = ((asciiLower citation.evidenceId.text).filter (· ≠ '-')).map hexValue := by
        rw [asciiLower, inner, asciiLower]
      _ = (citation.evidenceId.text.filter (· ≠ '-')).map hexValue := digits_lower _
      _ = citation.evidenceId.hex.map hexValue := citation.evidenceId.spells_text

theorem citationSource_ok {evidenceId location : Str} :
    Routes.citationSource decimal port evidenceId principal = .ok location ↔
      ∃ normalized resolution, uuid decimal evidenceId "resource_invalid" = .ok normalized ∧
        port.resolveCitationSource normalized principal = .ok resolution ∧
        (Rooted resolution.location ∧ '\x00' ∉ resolution.location) ∧
        location = redirectLocation resolution.location := by
  simp only [Routes.citationSource, bind_ok, require_ok, pure_ok, not_or, not_not]
  constructor
  · rintro ⟨normalized, named, resolution, resolved, _, ⟨slash, single, free, nul⟩, same⟩
    exact ⟨normalized, resolution, named, resolved, ⟨⟨slash, single, free⟩, nul⟩, same.symm⟩
  · rintro ⟨normalized, resolution, named, resolved, ⟨⟨slash, single, free⟩, nul⟩, same⟩
    exact ⟨normalized, named, resolution, resolved, (), ⟨slash, single, free, nul⟩, same.symm⟩

variable (decimal port principal)

/-- The link of every citation asks the provider for the evidence of that citation, and, whatever the
provider answers, a browser that follows the link stays on the host of the page; a citation whose
identifier has another version has a link that is refused. -/
theorem citation_links (citation : BrowserCitation) : ∃ evidenceId : Str,
    citation.sourceHref = citationsPath ++ evidenceId ++ sourcePart ∧ '/' ∉ evidenceId ∧
      (citation.evidenceId.Accepted → ∀ location,
        (Routes.citationSource decimal port evidenceId principal = .ok location ↔
          ∃ resolution,
            port.resolveCitationSource citation.evidenceId.text principal = .ok resolution ∧
            (Rooted resolution.location ∧ '\x00' ∉ resolution.location) ∧
            location = redirectLocation resolution.location)) ∧
      (¬ citation.evidenceId.Accepted →
        Routes.citationSource decimal port evidenceId principal =
          .error (badRequestError "The resource identifier is invalid" "resource_invalid")) ∧
      ∀ location, Routes.citationSource decimal port evidenceId principal = .ok location →
        (∀ origin, follow origin location = origin) ∧
          ∀ c ∈ location, 32 < c.toNat ∧ c.toNat < 127 := by
  obtain ⟨evidenceId, href, free, spells⟩ := citation.names_evidence
  have parsed : UUID.parse decimal evidenceId = some citation.evidenceId :=
    UUID.parse_written (.plain spells)
  refine ⟨evidenceId, href, free, ?_, ?_, ?_⟩
  · intro accepted location
    have named : uuid decimal evidenceId "resource_invalid" = .ok citation.evidenceId.text :=
      uuid_ok.mpr ⟨_, parsed, accepted, rfl⟩
    rw [citationSource_ok, named]
    constructor
    · rintro ⟨normalized, resolution, same, rest⟩
      cases same
      exact ⟨resolution, rest⟩
    · rintro ⟨resolution, rest⟩
      exact ⟨_, resolution, rfl, rest⟩
  · intro other
    rw [Routes.citationSource, uuid, parsed, expect_some, ok_bind, require_neg other]
    rfl
  · intro location redirected
    obtain ⟨_, resolution, _, _, ⟨rooted, _⟩, rfl⟩ := citationSource_ok.mp redirected
    refine ⟨follow_location rooted, fun c member => ?_⟩
    have visible := visible_location member
    exact ⟨visible.1, visible.2.1⟩

end Links

/-- Without the quoting a tab between two slashes would lead away. -/
example : Rooted ['/', '\t', '/', 'e', '.', 'x'] ∧
    follow ⟨"https".toList, "tpl.example".toList⟩ ['/', '\t', '/', 'e', '.', 'x'] =
      ⟨"https".toList, "e.x".toList⟩ :=
  ⟨⟨⟨_, rfl⟩, by decide, by decide⟩, rfl⟩

end TplBackend.Interaction
