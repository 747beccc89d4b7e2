import Switchboard.Client.Request
import Switchboard.Proofs.Text.Search
import Switchboard.Proofs.Topology.Format

/-!
# Where a request goes

A URL is put together from a scheme, an address that was announced and a path that the caller gives. It
is read by its punctuation alone, so the address must hold none, and the path must not be able to
begin before its slash.

- `Parts.ofText?`: a URL by its punctuation, whoever wrote it.
- `toList_normalizePath`: the path as it stands in the URL.
- `parts_join`: scheme, authority and rest are found again where they were put.
- `request_destination`: which URL a request has, and which others have the same.

The reader of URLs is not the program's own, and knows nothing of how the URL was made. It cuts at the
first `://` and lets the authority go on to the next slash, question mark or number sign, as
readers of URLs do. Therefore the theorem is about what someone else finds in the URL. That the
parts are found again gives injectivity: two URLs that are the same have the same parts.

An authority is not only an address. What stands before an `@` in it is read as a user name, and the
rules for addresses do not forbid it. The theorem says where the authority ends, and so that the path
has no part in it; what is in an address is decided by who announces it.
-/

namespace Switchboard.Client

/-- A URL by its punctuation. -/
structure Parts where
  scheme : String
  /-- What follows `://`, up to the first slash, question mark or number sign. -/
  authority : String
  rest : String
  deriving DecidableEq, Repr

/-- An authority goes up to here. -/
def endsAuthority (c : Char) : Bool := c == '/' || c == '?' || c == '#'

def Parts.ofText? (url : String) : Option Parts :=
  (Text.cut? "://".toList url.toList).map fun (scheme, after) =>
    { scheme := String.ofList scheme
      authority := String.ofList (after.takeWhile fun c => !endsAuthority c)
      rest := String.ofList (after.dropWhile fun c => !endsAuthority c) }

/-- There is nothing in the text that ends an authority. -/
def Unbroken (text : String) : Prop := ∀ c ∈ text.toList, endsAuthority c = false

instance (text : String) : Decidable (Unbroken text) :=
  List.decidableBAll (fun c => endsAuthority c = false) text.toList

variable {scheme authority path : String} {server : Address}

/-- A path has its slash in front. -/
theorem toList_normalizePath (path : String) : (normalizePath path).toList =
    if path.toList.head? = some '/' then path.toList else '/' :: path.toList := by
  unfold normalizePath
  split
  · rename_i rest hpath
    rw [hpath]
    rfl
  · rename_i hpath
    have hhead : path.toList.head? ≠ some '/' := by
      intro hhead
      obtain ⟨rest, hrest⟩ := List.head?_eq_some_iff.mp hhead
      exact hpath rest hrest
    rw [if_neg hhead, String.toList_append]
    rfl

theorem head?_normalizePath (path : String) : (normalizePath path).toList.head? = some '/' := by
  rw [toList_normalizePath]
  split
  · assumption
  · rfl

/-- An address holds none of the characters that end an authority. -/
theorem unbroken_text (server : Address) : Unbroken server.text := by
  have h := Address.isAddress_iff_legal.mpr server.legal
  intro c hc
  have hslash : c ≠ '/' := fun heq => h.path (heq ▸ hc)
  have hquery : c ≠ '?' := fun heq => h.query (heq ▸ hc)
  have hfragment : c ≠ '#' := fun heq => h.fragment (heq ▸ hc)
  simp [endsAuthority, hslash, hquery, hfragment]

/-- The first `://` is the one behind the scheme: it has two slashes, and up to its last there is one.
-/
theorem cut?_scheme (h : Unbroken scheme) (after : List Char) :
    Text.cut? "://".toList (scheme.toList ++ "://".toList ++ after) = some (scheme.toList, after) := by
  refine Text.cut?_append (by decide) (fun hin => ?_) after
  have hslash : '/' ∉ scheme.toList := fun hmem => absurd (h _ hmem) (by decide)
  have hcount := hin.sublist.count_le '/'
  rw [List.count_append, List.count_eq_zero.mpr hslash] at hcount
  exact absurd hcount (by decide)

/-- **What was put together is taken apart again.** -/
theorem parts_join (hscheme : Unbroken scheme) (hauthority : Unbroken authority)
    (hrest : path.toList.head? = some '/') :
    Parts.ofText? (scheme ++ "://" ++ authority ++ path) = some ⟨scheme, authority, path⟩ := by
  have hcut : Text.cut? "://".toList (scheme ++ "://" ++ authority ++ path).toList =
      some (scheme.toList, authority.toList ++ path.toList) := by
    rw [String.append_assoc, String.toList_append, String.toList_append, String.toList_append]
    exact cut?_scheme hscheme _
  obtain ⟨more, hmore⟩ := List.head?_eq_some_iff.mp hrest
  have hall : ∀ c ∈ authority.toList, (!endsAuthority c) = true := by
    intro c hc
    rw [hauthority c hc]
    rfl
  have htake : (authority.toList ++ path.toList).takeWhile (fun c => !endsAuthority c) =
      authority.toList := by
    rw [List.takeWhile_append_of_pos hall, hmore]
    simp [endsAuthority]
  have hdrop : (authority.toList ++ path.toList).dropWhile (fun c => !endsAuthority c) =
      path.toList := by
    rw [List.dropWhile_append_of_pos hall, hmore]
    simp [endsAuthority]
  unfold Parts.ofText?
  rw [hcut, Option.map_some]
  dsimp only
  rw [htake, hdrop, String.ofList_toList, String.ofList_toList, String.ofList_toList]

theorem parts_requestUrl (h : Unbroken scheme) (server : Address) (path : String) :
    Parts.ofText? (requestUrl scheme server path) =
      some ⟨scheme, server.text, normalizePath path⟩ :=
  parts_join h (unbroken_text server) (head?_normalizePath path)

/-- **The path cannot move a request to another server.** For a scheme without slash, question mark and
number sign and a text that is accepted as an address, whatever the path holds, the URL is scheme,
`://`, the address and the path, which has got a slash in front if it had none. Whoever reads it by
its punctuation finds these three again, so two URLs are the same only if their schemes, their
addresses and their paths with the slash are. -/
theorem request_destination (hscheme : Unbroken scheme) {text : String}
    (hserver : Address.ofText text = .ok server) (path : String) :
    requestUrl scheme server path = scheme ++ "://" ++ text ++ normalizePath path ∧
      (normalizePath path).toList =
        (if path.toList.head? = some '/' then path.toList else '/' :: path.toList) ∧
      Parts.ofText? (requestUrl scheme server path) = some ⟨scheme, text, normalizePath path⟩ ∧
      ∀ scheme' text' server' path', Unbroken scheme' → Address.ofText text' = .ok server' →
        (requestUrl scheme' server' path' = requestUrl scheme server path ↔
          scheme' = scheme ∧ text' = text ∧ normalizePath path' = normalizePath path) := by
  obtain rfl := Address.ofText_eq_ok_iff.mp hserver
  refine ⟨rfl, toList_normalizePath path, parts_requestUrl hscheme server path, ?_⟩
  intro scheme' text' server' path' hscheme' hserver'
  obtain rfl := Address.ofText_eq_ok_iff.mp hserver'
  constructor
  · intro heq
    have hparts := congrArg Parts.ofText? heq
    rw [parts_requestUrl hscheme' server' path', parts_requestUrl hscheme server path] at hparts
    simpa using hparts
  · rintro ⟨rfl, htext, hpath⟩
    unfold requestUrl
    rw [htext, hpath]

/-- The address and the path both try to look like something else. -/
theorem request_destination_crafted :
    ∃ server, Address.ofText "user@h:1" = .ok server ∧ Unbroken "https" ∧
      Parts.ofText? (requestUrl "https" server "@evil.test://x?a#b") =
        some ⟨"https", "user@h:1", "/@evil.test://x?a#b"⟩ := by
  have hscheme : Unbroken "https" := by decide +kernel
  let server : Address := ⟨"user@h:1", by decide +kernel⟩
  have hserver : Address.ofText "user@h:1" = .ok server := Address.ofText_eq_ok_iff.mpr rfl
  obtain ⟨-, -, hparts, -⟩ := request_destination hscheme hserver "@evil.test://x?a#b"
  exact ⟨server, hserver, hscheme, hparts⟩

end Switchboard.Client
