import SchemaGraph.External.Access
import SchemaGraph.Proofs.Location.Place
import SchemaGraph.Proofs.Outcome

/-!
# References of documents from the web

A document that was fetched has a URL of the web as its location.  What is read relative to it is a URL
again, so a reference that the document declares leads back to the web.  There is one exception: a
location that is written with a scheme of its own is taken as it is, and without slashes behind the
scheme it is not known for a URL.
-/

namespace SchemaGraph

namespace Url

/-- The scheme that a text has, or that it is read under. -/
def schemeOf (underScheme : String) (text : List Char) : String :=
  match scheme? text with
  | some (name, _) => Case.lower (String.ofList name)
  | none => underScheme

theorem scheme_read {underScheme : String} {text : List Char} {u : Url}
    (h : read underScheme text = .ok u) : u.scheme = schemeOf underScheme (clean text) := by
  -- an authority that is not valid fails, and nothing else does
  have hvalid : ∀ {condition : Prop} [Decidable condition] {f : Fault} {parts : Url},
      (if condition then .error f else .ok parts) = Except.ok u → parts = u := by
    intro condition _ f parts h
    split at h
    · cases h
    · exact Except.ok.inj h
  unfold schemeOf
  unfold read at h
  dsimp only at h
  cases hscheme : scheme? (clean text) with
  | none =>
      rw [hscheme] at h
      rw [← hvalid h]
  | some found =>
      rw [hscheme] at h
      rw [← hvalid h]

/-- Under the schemes of the web there are relative texts and authorities. -/
theorem web_scheme {scheme : String} (h : scheme ∈ External.fetchable) :
    IsScheme scheme.toList ∧ relativeSchemes.contains scheme = true ∧
      authoritySchemes.contains scheme = true := by
  rcases List.mem_cons.mp h with rfl | hin
  · exact ⟨⟨by decide, 'h', by decide⟩, by decide⟩
  · rw [List.mem_singleton.mp hin]
    exact ⟨⟨by decide, 'h', by decide⟩, by decide⟩

/-- The text of a URL of the web starts with its scheme and two slashes. -/
theorem toList_text_web {u : Url} (h : u.scheme ∈ External.fetchable) :
    ∃ rest, u.text.toList = u.scheme.toList ++ ':' :: '/' :: '/' :: rest := by
  obtain ⟨⟨-, c, hhead, -⟩, -, hauthority⟩ := web_scheme h
  have hne : u.scheme ≠ "" := by
    intro hempty
    rw [hempty] at hhead
    cases hhead
  unfold text
  simp only [hauthority, if_neg hne, bne_iff_ne.mpr hne, Bool.and_self, Bool.or_true, Bool.true_or,
    if_true, String.toList_ofList]
  -- a query and a fragment stand behind
  split <;> split <;> simp

/-- Reading a text relative to a URL of the web gives that URL, or the text if its scheme is another one,
or a URL of the same scheme. -/
theorem join_web {base relative l : String} {b : Url} (hbase : base ≠ "")
    (hb : read "" base.toList = .ok b) (hweb : b.scheme ∈ External.fetchable)
    (h : join base relative = .ok l) :
    l = base ∨ l = relative ∧ schemeOf b.scheme (clean relative.toList) ≠ b.scheme ∨
      ∃ u : Url, u.scheme = b.scheme ∧ l = u.text := by
  obtain ⟨-, hrelatives, -⟩ := web_scheme hweb
  unfold join at h
  dsimp only at h
  rw [if_neg hbase] at h
  by_cases hrelative : relative = ""
  · rw [if_pos hrelative] at h
    exact Or.inl (Except.ok.inj h).symm
  rw [if_neg hrelative] at h
  obtain ⟨b', hb', h⟩ := bind_eq_ok.mp h
  obtain rfl := Except.ok.inj (hb.symm.trans hb')
  obtain ⟨r, hr, h⟩ := bind_eq_ok.mp h
  rw [← scheme_read hr]
  by_cases hscheme : r.scheme = b.scheme
  · have htext : ∀ u : Url, u.scheme = r.scheme → u.text = l →
        ∃ u : Url, u.scheme = b.scheme ∧ l = u.text :=
      fun u hu hl => ⟨u, hu.trans hscheme, hl.symm⟩
    rw [if_neg (by simp only [hscheme, hrelatives]; simp)] at h
    -- whatever the text leaves open is taken from the base, and its scheme stays
    refine Or.inr (Or.inr ?_)
    split at h
    · exact htext r rfl (Except.ok.inj h)
    · split at h
      · refine htext _ ?_ (Except.ok.inj h)
        rfl
      · refine htext _ ?_ (Except.ok.inj h)
        rfl
  · rw [if_pos (Or.inl hscheme)] at h
    exact Or.inr (Or.inl ⟨(Except.ok.inj h).symm, hscheme⟩)

end Url

namespace Location

/-- Whether a location is a URL of a scheme under which documents are fetched. -/
structure IsWeb (location scheme : String) : Prop where
  url : isUrl location = true
  read : ∃ parts, Url.read "" location.toList = .ok parts ∧ parts.scheme = scheme
  fetchable : scheme ∈ External.fetchable

/-- Whether a location is written with a scheme of its own that is not a given one, and is no URL for
want of slashes. -/
structure IsForeign (scheme location : String) : Prop where
  notUrl : isUrl location = false
  scheme : Url.schemeOf scheme (Url.clean location.toList) ≠ scheme

theorem isUrl_append {location : String} (h : isUrl location = true) (more : String) :
    isUrl (location ++ more) = true := by
  obtain ⟨name, rest, hname, hlocation⟩ := isUrl_iff.mp h
  exact isUrl_iff.mpr ⟨name, rest ++ more.toList, hname, by
    rw [String.toList_append, hlocation, List.append_assoc, List.cons_append, List.cons_append,
      List.cons_append]⟩

/-- The location of a reference that starts like a URL is one. -/
theorem isUrl_of_read {x : String} {parsed : Reference} (h : isUrl x = true)
    (hread : Reference.read? x = some parsed) : isUrl parsed.location = true := by
  obtain ⟨name, rest, hname, hx⟩ := isUrl_iff.mp h
  obtain ⟨fragment, hhash, hx', -⟩ := Reference.read_eq_some hread
  have hstart : '#' ∉ name ++ [':', '/', '/'] := by
    intro hin
    rcases List.mem_append.mp hin with hin | hin
    · exact hname.not_mem (by decide) hin
    · exact absurd hin (by decide)
  have hboth : parsed.location.toList ++ '#' :: fragment = (name ++ [':', '/', '/']) ++ rest := by
    rw [← hx', hx, List.append_assoc]
    rfl
  -- the location ends behind the slashes, since there is no hash sign before them
  rcases List.append_eq_append_iff.mp hboth with ⟨between, hbetween, hmore⟩ | ⟨more, hlocation, -⟩
  · cases between with
    | nil =>
        refine isUrl_iff.mpr ⟨name, [], hname, ?_⟩
        rw [List.append_nil] at hbetween
        rw [← hbetween]
    | cons c others =>
        obtain ⟨rfl, -⟩ := List.cons.inj hmore
        exact absurd (hbetween ▸ List.mem_append_right _ List.mem_cons_self) hstart
  · exact isUrl_iff.mpr ⟨name, more, hname, by rw [hlocation, List.append_assoc]; rfl⟩

section Joining

variable {base scheme : String} (hbase : IsWeb base scheme)
include hbase

/-- A location that is read relative to one of the web is a URL, or stays as it is and is foreign. -/
theorem IsWeb.join {location l : String} (h : Location.join base location = .ok l) :
    isUrl l = true ∨ l = location ∧ IsForeign scheme location := by
  obtain ⟨b, hb, rfl⟩ := hbase.read
  unfold Location.join at h
  by_cases hempty : location = ""
  · rw [if_pos hempty] at h
    rw [← Except.ok.inj h]
    exact Or.inl hbase.url
  rw [if_neg hempty] at h
  cases hurl : isUrl location with
  | true =>
      rw [if_pos hurl] at h
      rw [← Except.ok.inj h]
      exact Or.inl hurl
  | false =>
      rw [if_neg (by simp [hurl]), if_pos hbase.url] at h
      rcases Url.join_web (ne_empty_of_isUrl hbase.url) hb hbase.fetchable h with
        rfl | ⟨rfl, hscheme⟩ | ⟨u, hscheme, rfl⟩
      · exact Or.inl hbase.url
      · exact Or.inr ⟨rfl, hurl, hscheme⟩
      · have hweb : u.scheme ∈ External.fetchable := hscheme ▸ hbase.fetchable
        obtain ⟨rest, hrest⟩ := Url.toList_text_web hweb
        exact Or.inl (isUrl_iff.mpr ⟨u.scheme.toList, rest, (Url.web_scheme hweb).1, hrest⟩)

omit hbase in
example : Location.join "https://example.com/a.json" "x:/../secret.json" = .ok "x:/../secret.json" := by
  decide +kernel

/-- A reference that is seen from outside of a document of the web has a URL as its location, or stays
as it is and its location is foreign. -/
theorem IsWeb.rebase {y x : String} {parsed : Reference} (h : Location.rebase base y = .ok x)
    (hread : Reference.read? x = some parsed) :
    isUrl parsed.location = true ∨ x = y ∧ IsForeign scheme parsed.location := by
  unfold Location.rebase at h
  rw [if_neg (ne_empty_of_isUrl hbase.url)] at h
  rcases Pieces.splitFirst_cases '#' y.toList with ⟨hhash, hsplit⟩ |
    ⟨location, fragment, hhash, hy, hsplit⟩
  · rw [hsplit] at h
    dsimp only at h
    rw [String.ofList_toList] at h
    rcases hbase.join h with hurl | ⟨rfl, -⟩
    · exact Or.inl (isUrl_of_read hurl hread)
    · -- without a hash sign it would not be a reference
      obtain ⟨fragment, -, hx, -⟩ := Reference.read_eq_some hread
      exact absurd (hx ▸ List.mem_append_right _ List.mem_cons_self) hhash
  · rw [hsplit] at h
    obtain ⟨l, hl, h⟩ := bind_eq_ok.mp h
    obtain rfl := Except.ok.inj h
    rcases hbase.join hl with hurl | ⟨rfl, hforeign⟩
    · exact Or.inl (isUrl_of_read (isUrl_append hurl _) hread)
    · have hsame : String.ofList location ++ String.ofList ('#' :: fragment) = y := by
        rw [← String.ofList_append, ← hy, String.ofList_toList]
      rw [hsame] at hread ⊢
      obtain ⟨fragment', hhash', hy', -⟩ := Reference.read_eq_some hread
      have hsplit' := Pieces.splitFirst_append hhash' fragment'
      rw [← hy', hsplit] at hsplit'
      rw [(Prod.mk.inj hsplit').1, String.ofList_toList] at hforeign
      exact Or.inr ⟨rfl, hforeign⟩

end Joining

end Location

end SchemaGraph
