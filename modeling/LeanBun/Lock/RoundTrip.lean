/-
Which locks can be read back.

Writing and reading a lock is the identity on everything but the Git URLs, which
are parsed a second time. `CanonicalSourceUrlV1::parse` removes one `.git` and
does not look at what that leaves: the rest can end in `.git` again, or in a
segment that the parser itself refuses. Those are the URLs that are not read
back, and a lock is read back exactly when it has none of them.
-/
import LeanBun.Lock.Codec

set_option autoImplicit false

namespace LeanBun.Lock

open LeanBun.Lib LeanBun.Core

/-! ## URLs that parse to themselves -/

/-- The URL ends in none of `.git`, `/`, `/.` and `/..`. -/
def reads_back (value : Str) : Bool :=
  !dot_git.isSuffixOf value && !("/".toList.isSuffixOf value) && !("/.".toList.isSuffixOf value) &&
    !("/..".toList.isSuffixOf value)

/-- The shape of every canonical URL: all its path segments are direct, except
perhaps the last one, which may have lost its `.git`. -/
theorem canonical_url_shape (url : CanonicalSourceUrlV1) :
    ∃ host path, url.value = https ++ (host ++ '/' :: path) ∧ valid_host host = true ∧ '/' ∉ host ∧
      valid_atom url.value MAX_TEXT_BYTES false = true ∧ url.value.all is_url_char = true ∧
      (split '/' path).dropLast.all direct_segment = true := by
  obtain ⟨raw, hraw⟩ := url.parsed
  obtain ⟨hatom, hvalue, remainder, host, path, hstart, hsplit, hnorm⟩ := parse_source_url_cases hraw
  obtain ⟨hremainder, hslash⟩ := split_once_eq_some hsplit
  have hshape : raw = https ++ (host ++ '/' :: path) := by
    rw [strip_prefix_eq_some hstart, hremainder]
  rw [normalized_url, Bool.and_eq_true, Bool.and_eq_true] at hnorm
  obtain ⟨⟨hhost, hpath⟩, hchars⟩ := hnorm
  have hdirect : (split '/' path).dropLast.all direct_segment = true := by
    rw [List.all_eq_true] at hpath ⊢
    exact fun piece hpiece => hpath piece (List.dropLast_subset _ hpiece)
  by_cases hgit : dot_git.isSuffixOf raw = true
  · -- The removed text has no slash, so all of it belongs to the last segment.
    have hsuffix : dot_git <:+ raw := List.isSuffixOf_iff_suffix.mp hgit
    obtain ⟨front, hfront⟩ := hsuffix
    have hstrip : url.value = front := by
      rw [hvalue, strip_dot_git, if_pos hgit, ← hfront]
      have hlen : (front ++ dot_git).length - 4 = front.length := by
        rw [List.length_append]
        simp [dot_git]
      rw [hlen, List.take_left]
    obtain ⟨path', hpath'⟩ : ∃ path', path = path' ++ dot_git := by
      have hself : ('/' :: path) <:+ raw := by
        rw [hshape]
        exact ⟨https ++ host, by simp [List.append_assoc]⟩
      have hle : dot_git.length ≤ path.length := by
        by_contra hlt
        have hshort : ('/' :: path) <:+ dot_git := by
          refine List.suffix_of_suffix_length_le hself ⟨front, hfront⟩ ?_
          simp only [List.length_cons]
          omega
        have hmem : '/' ∈ dot_git := hshort.subset List.mem_cons_self
        exact absurd hmem (by decide)
      have hin : dot_git <:+ path := by
        have htail : path <:+ raw := List.IsSuffix.trans (List.suffix_cons '/' path) hself
        exact List.suffix_of_suffix_length_le ⟨front, hfront⟩ htail hle
      obtain ⟨path', hp⟩ := hin
      exact ⟨path', hp.symm⟩
    have hfront' : front = https ++ (host ++ '/' :: path') := by
      have hboth : front ++ dot_git = https ++ (host ++ '/' :: path') ++ dot_git := by
        rw [hfront, hshape, hpath']
        simp [List.append_assoc]
      exact List.append_cancel_right hboth
    obtain ⟨init, last, -, hpieces, -, -⟩ := split_last '/' path'
    have hlonger : split '/' path = init ++ [last ++ dot_git] := by
      rw [hpath']
      exact split_append hpieces (by decide)
    refine ⟨host, path', by rw [hstrip, hfront'], hhost, hslash, ?_, ?_, ?_⟩
    · have hraw' : raw = url.value ++ dot_git := by rw [hstrip, hfront]
      rw [hraw'] at hatom
      have hne : url.value.isEmpty = false := by
        rw [hstrip, hfront']
        rfl
      simp only [valid_atom, Bool.not_eq_true', Bool.or_eq_false_iff, decide_eq_false_iff_not,
        not_lt, byte_len_append, List.any_append] at hatom ⊢
      refine ⟨⟨by simp [hne], ?_⟩, hatom.2.1⟩
      have hlen := hatom.1.2
      omega
    · have hraw' : raw = url.value ++ dot_git := by rw [hstrip, hfront]
      rw [hraw', List.all_append, Bool.and_eq_true] at hchars
      exact hchars.1
    · rw [hlonger, List.dropLast_concat] at hdirect
      rw [hpieces, List.dropLast_concat]
      exact hdirect
  · have hstrip : url.value = raw := by
      rw [hvalue, strip_dot_git, if_neg hgit]
    rw [hstrip]
    exact ⟨host, path, hshape, hhost, hslash, hatom, hchars, hdirect⟩

theorem parse_source_url_of_shape {value host path : Str} (hvalue : value = https ++ (host ++ '/' :: path))
    (hhost : valid_host host = true) (hslash : '/' ∉ host)
    (hatom : valid_atom value MAX_TEXT_BYTES false = true) (hchars : value.all is_url_char = true)
    (hpath : (split '/' path).all direct_segment = true) :
    parse_source_url value = .ok (strip_dot_git value) := by
  have hstart : strip_prefix https value = some (host ++ '/' :: path) := by
    rw [hvalue, strip_prefix_append]
  have hnorm : normalized_url host path value = true := by
    rw [normalized_url, hhost, hpath, hchars]
    rfl
  simp only [parse_source_url, validate_atom_ok hatom, bind, Except.bind, hstart,
    split_once_append hslash, if_pos hnorm]

/-- **Fixed points of the URL parser.** A canonical URL is parsed to itself
exactly when it ends in none of `.git`, `/`, `/.` and `/..`. -/
theorem parse_source_url_self_iff (url : CanonicalSourceUrlV1) :
    parse_source_url url.value = .ok url.value ↔ reads_back url.value = true := by
  obtain ⟨host, path, hvalue, hhost, hslash, hatom, hchars, hinit⟩ := canonical_url_shape url
  obtain ⟨init, last, front, hpieces, hfront, hlast⟩ := split_last '/' path
  rw [hpieces, List.dropLast_concat] at hinit
  have hform : url.value = (https ++ host ++ front) ++ '/' :: last := by
    rw [hvalue]
    simp only [List.append_assoc]
    rw [← hfront]
  -- The three other suffixes are about the last segment.
  have hsuffix : ∀ piece : Str, '/' ∉ piece →
      (('/' :: piece).isSuffixOf url.value = true ↔ piece = last) := by
    intro piece hpiece
    rw [List.isSuffixOf_iff_suffix, hform]
    exact separator_suffix_iff hlast hpiece
  have hdirect : (split '/' path).all direct_segment = true ↔ direct_segment last = true := by
    rw [hpieces, List.all_append, hinit]
    simp
  have hreads : reads_back url.value = true ↔
      dot_git.isSuffixOf url.value = false ∧ direct_segment last = true := by
    have h1 := hsuffix [] (by decide)
    have h2 := hsuffix ['.'] (by decide)
    have h3 := hsuffix ['.', '.'] (by decide)
    unfold reads_back direct_segment
    simp only [Bool.and_eq_true, Bool.not_eq_true', Bool.or_eq_false_iff, decide_eq_false_iff_not]
    rw [← Bool.not_eq_true ("/".toList.isSuffixOf _), ← Bool.not_eq_true ("/.".toList.isSuffixOf _),
      ← Bool.not_eq_true ("/..".toList.isSuffixOf _)]
    have e1 : "/".toList = '/' :: [] := by decide
    have e2 : "/.".toList = '/' :: ['.'] := by decide
    have e3 : "/..".toList = '/' :: ['.', '.'] := by decide
    rw [e1, e2, e3, h1, h2, h3]
    have hempty : last.isEmpty = false ↔ ¬([] = last) := by
      cases last <;> simp
    rw [hempty, eq_comm (a := last) (b := ['.']), eq_comm (a := last) (b := ['.', '.'])]
    tauto
  rw [hreads]
  constructor
  · intro hparse
    obtain ⟨-, hstrip, remainder, host', path', hstart, hsplit, hnorm⟩ :=
      parse_source_url_cases hparse
    have hremainder : remainder = host ++ '/' :: path := by
      have h := strip_prefix_append https (host ++ '/' :: path)
      rw [← hvalue, hstart] at h
      exact Option.some.inj h
    rw [hremainder, split_once_append hslash, Option.some.injEq, Prod.mk.injEq] at hsplit
    obtain ⟨rfl, rfl⟩ := hsplit
    rw [normalized_url, Bool.and_eq_true, Bool.and_eq_true] at hnorm
    refine ⟨?_, hdirect.mp hnorm.1.2⟩
    by_contra hgit
    rw [Bool.not_eq_false] at hgit
    rw [strip_dot_git, if_pos hgit] at hstrip
    have hlen := congrArg List.length hstrip
    have hlong : dot_git.length ≤ url.value.length :=
      (List.isSuffixOf_iff_suffix.mp hgit).length_le
    rw [List.length_take] at hlen
    simp only [dot_git] at hlong
    have h4 : ".git".toList.length = 4 := by decide
    omega
  · rintro ⟨hgit, hseg⟩
    rw [parse_source_url_of_shape hvalue hhost hslash hatom hchars (hdirect.mpr hseg),
      strip_dot_git, if_neg (by rw [hgit]; decide)]

/-- The same for the typed constructor. -/
theorem CanonicalSourceUrlV1.parse_self_iff (url : CanonicalSourceUrlV1) :
    CanonicalSourceUrlV1.parse url.value = .ok url ↔ reads_back url.value = true := by
  rw [← parse_source_url_self_iff]
  unfold CanonicalSourceUrlV1.parse
  constructor
  · intro h
    split at h
    · next value hvalue =>
      have hurl := Except.ok.inj h
      rw [hvalue, ← hurl]
    · cases h
  · intro hself
    split
    · next value hvalue =>
      rw [hself] at hvalue
      exact congrArg Except.ok (CanonicalSourceUrlV1.ext (Except.ok.inj hvalue).symm)
    · next e he =>
      rw [hself] at he
      cases he

/-! ## Packages that are read back -/

/-- The Git URL of a requested source. -/
def RequestedPackageSourceV1.git_url : RequestedPackageSourceV1 → Option CanonicalSourceUrlV1
  | .Git url _ _ => some url
  | .PathSnapshot _ _ => none

/-- The Git URL of a resolved source. -/
def ResolvedPackageSourceV1.git_url : ResolvedPackageSourceV1 → Option CanonicalSourceUrlV1
  | .Git url _ _ _ _ => some url
  | .PathSnapshot _ _ => none

/-- A package has one URL, in both sources. -/
theorem compatible_git_url {requested : RequestedPackageSourceV1} {resolved : ResolvedPackageSourceV1}
    (h : sources_compatible requested resolved = true) : resolved.git_url = requested.git_url := by
  cases requested with
  | Git url revision hvalid =>
    cases resolved with
    | Git url' revision' subdir hrev hsub =>
      simp only [sources_compatible, decide_eq_true_eq] at h
      simp only [ResolvedPackageSourceV1.git_url, RequestedPackageSourceV1.git_url, h]
    | PathSnapshot token hvalid' => simp [sources_compatible] at h
  | PathSnapshot token hvalid =>
    cases resolved with
    | Git url revision subdir hrev hsub => simp [sources_compatible] at h
    | PathSnapshot token' hvalid' => rfl

theorem reread_requested_self_iff (r : RequestedPackageSourceV1) :
    reread_requested r = .ok r ↔ ∀ url ∈ r.git_url, reads_back url.value = true := by
  cases r with
  | Git url revision hvalid =>
    simp only [reread_requested, RequestedPackageSourceV1.git_url, Option.mem_def, Option.some.injEq,
      forall_eq', ← CanonicalSourceUrlV1.parse_self_iff]
    constructor
    · intro h
      obtain ⟨url', hparse, hgit⟩ := bind_eq_ok.mp h
      rw [RequestedPackageSourceV1.git_ok url' revision hvalid] at hgit
      cases hgit
      exact hparse
    · intro h
      rw [h]
      exact RequestedPackageSourceV1.git_ok url revision hvalid
  | PathSnapshot token hvalid =>
    simp only [reread_requested, RequestedPackageSourceV1.path_snapshot_ok hvalid,
      RequestedPackageSourceV1.git_url, Option.mem_def, reduceCtorEq, false_imp_iff, implies_true]

theorem reread_resolved_self {r : ResolvedPackageSourceV1}
    (h : ∀ url ∈ r.git_url, reads_back url.value = true) : reread_resolved r = .ok r := by
  cases r with
  | Git url revision subdir hrev hsub =>
    have hurl := (CanonicalSourceUrlV1.parse_self_iff url).mpr (h url rfl)
    simp only [reread_resolved]
    rw [hurl]
    exact ResolvedPackageSourceV1.git_ok url revision subdir hrev hsub
  | PathSnapshot token hvalid => exact ResolvedPackageSourceV1.path_snapshot_ok hvalid

/-- **A package is read back exactly when its URL is.** -/
theorem reread_self_iff (p : LockedLeanPackageV1) :
    reread p = .ok p ↔ ∀ url ∈ p.requested.git_url, reads_back url.value = true := by
  constructor
  · intro h
    obtain ⟨requested, hrequested, h⟩ := bind_eq_ok.mp h
    obtain ⟨resolved, -, h⟩ := bind_eq_ok.mp h
    obtain ⟨-, hsame, -⟩ := LockedLeanPackageV1.new_sources h
    rw [← hsame] at hrequested
    exact (reread_requested_self_iff _).mp hrequested
  · intro h
    have hresolved : reread_resolved p.resolved = .ok p.resolved :=
      reread_resolved_self (by rw [compatible_git_url p.compatible]; exact h)
    unfold reread
    rw [(reread_requested_self_iff _).mpr h, hresolved]
    exact p.new_self

/-- Rereading keeps the key. -/
theorem reread_key {p q : LockedLeanPackageV1} (h : reread p = .ok q) : q.key = p.key := by
  obtain ⟨requested, -, h⟩ := bind_eq_ok.mp h
  obtain ⟨resolved, -, h⟩ := bind_eq_ok.mp h
  exact (LockedLeanPackageV1.new_sources h).1

/-! ## Locks that are read back -/

/-- A line that the reader does not split. -/
def PlainLine (s : Str) : Prop := '\n' ∉ s ∧ '\r' ∉ s

theorem line_plain {label : String} (hlabel : label_token label = true) (values : List Str)
    (hvalues : ∀ v ∈ values, IsToken v) : PlainLine (line label values) := by
  have htokens : ∀ f ∈ label.toList :: values, IsToken f := by
    intro f hf
    rcases List.mem_cons.mp hf with rfl | hf
    · exact label_token_spec hlabel
    · exact hvalues f hf
  exact ⟨tab_line_not_mem (by decide) _ fun f hf => (htokens f hf).not_mem (by decide),
    tab_line_not_mem (by decide) _ fun f hf => (htokens f hf).not_mem (by decide)⟩

theorem line_one_plain {label : String} (hlabel : label_token label = true) {v : Str}
    (hv : IsToken v) : PlainLine (line label [v]) :=
  line_plain hlabel [v] fun w hw => by rw [List.mem_singleton.mp hw]; exact hv

theorem key_line_plain {label : String} (hlabel : label_token label = true) (key : PackageKeyV1) :
    PlainLine (key_line label key) := by
  refine line_plain hlabel _ ?_
  intro v hv
  simp only [List.mem_cons, List.not_mem_nil, or_false] at hv
  rcases hv with rfl | rfl <;> exact hex_token _

theorem package_lines_plain (p : LockedLeanPackageV1) : ∀ ln ∈ package_lines p, PlainLine ln := by
  intro ln hln
  simp only [package_lines, List.cons_append, List.nil_append, List.mem_cons, List.mem_append,
    List.mem_map, List.not_mem_nil, or_false] at hln
  rcases hln with rfl | rfl | rfl | rfl | rfl | rfl | rfl | rfl | rfl | hln | rfl | hln | rfl
  · exact key_line_plain (by decide) _
  · rw [encode_requested_eq]
    exact line_plain (by decide) _ (requested_values_token _)
  · rw [encode_resolved_eq]
    exact line_plain (by decide) _ (resolved_values_token _)
  · exact line_one_plain (by decide) (encode_optional_sha_token _)
  · exact line_one_plain (by decide) (Sha256.to_string_token _)
  · exact line_one_plain (by decide) (Sha256.to_string_token _)
  · exact line_one_plain (by decide) (encode_optional_sha_token _)
  · exact line_one_plain (by decide) (Sha256.to_string_token _)
  · exact line_one_plain (by decide) (decimal_token _)
  · obtain ⟨key, -, rfl⟩ := hln
    exact key_line_plain (by decide) key
  · exact line_one_plain (by decide) (decimal_token _)
  · obtain ⟨digest, -, rfl⟩ := hln
    exact line_one_plain (by decide) digest.to_string_token
  · exact line_plain (by decide) [] (by simp)

theorem lock_lines_plain (l : LeanBunLockV1) : ∀ ln ∈ lock_lines l, PlainLine ln := by
  intro ln hln
  simp only [lock_lines, List.cons_append, List.nil_append, List.mem_cons, List.mem_append,
    List.mem_flatMap, List.not_mem_nil, or_false] at hln
  rcases hln with rfl | rfl | rfl | rfl | rfl | rfl | rfl | ⟨p, -, hln⟩ | rfl | rfl
  · exact line_one_plain (by decide) (label_token_spec (by decide))
  · exact line_one_plain (by decide) (hex_token _)
  · exact line_one_plain (by decide) (hex_token _)
  · exact line_one_plain (by decide) (hex_token _)
  · exact line_one_plain (by decide) (Sha256.to_string_token _)
  · exact line_one_plain (by decide) (Sha256.to_string_token _)
  · exact line_one_plain (by decide) (decimal_token _)
  · exact package_lines_plain p ln hln
  · exact line_one_plain (by decide) (Sha256.to_string_token _)
  · exact line_plain (by decide) [] (by simp)

/-- **Reading a written lock** is its reread and the lock constructor. -/
theorem parse_lock_written (l : LeanBunLockV1) :
    parse_lock l.to_canonical_text = reread_fields l >>= LockFields.to_lock := by
  have hplain := lock_lines_plain l
  have hlast : (l.to_canonical_text).getLast? = some '\n' :=
    unlines_getLast (List.cons_ne_nil _ _)
  have hcr : '\r' ∉ l.to_canonical_text := by
    simp only [LeanBunLockV1.to_canonical_text, unlines, List.mem_flatMap, not_exists, not_and,
      List.mem_append, List.mem_singleton, not_or]
    exact fun ln hln => ⟨(hplain ln hln).2, by decide⟩
  have hlines : lines l.to_canonical_text = lock_lines l := lines_unlines _ hplain
  have hread := lock_lines_read l []
  rw [List.append_nil] at hread
  simp only [parse_lock, require_ok (And.intro hlast hcr), hlines, hread]
  cases reread_fields l with
  | error e => rfl
  | ok fields => rfl

/-- Rereading a list of packages keeps its keys. -/
theorem reread_keys {ps qs : List LockedLeanPackageV1}
    (h : List.Forall₂ (fun p q => reread p = .ok q) ps qs) :
    qs.map LockedLeanPackageV1.key = ps.map LockedLeanPackageV1.key := by
  induction h with
  | nil => rfl
  | cons hread _ ih => rw [List.map_cons, List.map_cons, ih, reread_key hread]

theorem StrictlySorted.of_keys {ps qs : List LockedLeanPackageV1}
    (hkeys : qs.map LockedLeanPackageV1.key = ps.map LockedLeanPackageV1.key)
    (h : StrictlySorted LockedLeanPackageV1.key ps) : StrictlySorted LockedLeanPackageV1.key qs := by
  have hps : (ps.map LockedLeanPackageV1.key).Pairwise (· < ·) := List.pairwise_map.mpr h
  rw [← hkeys] at hps
  exact List.pairwise_map.mp hps

/-- If a written lock is read back, every package rereads to itself. -/
theorem packages_reread_of_read_back {l : LeanBunLockV1}
    (h : LeanBunLockV1.from_canonical_text l.to_canonical_text = .ok l) :
    ∀ p ∈ l.packages, reread p = .ok p := by
  unfold LeanBunLockV1.from_canonical_text at h
  rw [parse_lock_written] at h
  obtain ⟨parsed, hparse, h⟩ := bind_eq_ok.mp h
  obtain ⟨_, -, h⟩ := bind_eq_ok.mp h
  cases h
  obtain ⟨fields, hfields, hlock⟩ := bind_eq_ok.mp hparse
  obtain ⟨packages, hpackages, hfields⟩ := bind_eq_ok.mp hfields
  cases hfields
  obtain ⟨lock, hnew, h⟩ := bind_eq_ok.mp hlock
  obtain ⟨_, -, h⟩ := bind_eq_ok.mp h
  cases h
  have hall := mapM_eq_ok_iff.mp hpackages
  -- The keys are kept, so the reread packages are already sorted and the
  -- constructor returns them as they are.
  have hsame : l.packages = packages := by
    rw [LeanBunLockV1.new_packages hnew]
    exact (StrictlySorted.of_keys (reread_keys hall) l.packages_sorted).sort_eq
  rw [← hsame, List.forall₂_same] at hall
  exact hall

/-- If every package rereads to itself, the written lock is read back. -/
theorem read_back_of_packages_reread {l : LeanBunLockV1}
    (h : ∀ p ∈ l.packages, reread p = .ok p) :
    LeanBunLockV1.from_canonical_text l.to_canonical_text = .ok l := by
  have hpackages : l.packages.mapM reread = .ok l.packages :=
    mapM_eq_ok_iff.mpr (List.forall₂_same.mpr h)
  have hlock : (reread_fields l >>= LockFields.to_lock) = .ok l := by
    unfold reread_fields LockFields.to_lock
    rw [hpackages]
    show (LeanBunLockV1.new _ _ _ _ _ _ >>= _) = _
    rw [l.new_self]
    show (require _ _ _ >>= _) = _
    rw [require_ok rfl]
    rfl
  unfold LeanBunLockV1.from_canonical_text
  rw [parse_lock_written, hlock]
  show (require _ _ _ >>= _) = _
  rw [require_ok rfl]
  rfl

/-- **Which locks are read back.** A written lock is read back as the same lock
exactly when none of its Git URLs ends in `.git`, `/`, `/.` or `/..`. -/
theorem from_canonical_text_iff (l : LeanBunLockV1) :
    LeanBunLockV1.from_canonical_text l.to_canonical_text = .ok l ↔
      ∀ p ∈ l.packages, ∀ url ∈ p.requested.git_url, reads_back url.value = true := by
  have hself : (∀ p ∈ l.packages, reread p = .ok p) ↔
      ∀ p ∈ l.packages, ∀ url ∈ p.requested.git_url, reads_back url.value = true :=
    forall₂_congr fun p _ => reread_self_iff p
  rw [← hself]
  exact ⟨packages_reread_of_read_back, read_back_of_packages_reread⟩

/-! ## A lock that is not read back -/

/-- `https://h/a.git.git` is accepted and becomes `https://h/a.git`. -/
def double_git_url : CanonicalSourceUrlV1 :=
  ⟨"https://h/a.git".toList, "https://h/a.git.git".toList, by decide⟩

def double_git_package : LockedLeanPackageV1 :=
  ⟨⟨[], "a".toList, no_scope_valid, by decide⟩, .Git double_git_url none (no_text_valid _),
    .Git double_git_url (List.replicate 40 '1') none ones_revision_valid no_subdir_valid,
    some (Sha256.repeated 1), Sha256.repeated 2, Sha256.repeated 3, none,
    [], [Sha256.repeated 5], Sha256.repeated 6, five_digest_counted, by decide,
    by decide, no_keys_sorted, by decide, five_digest_sorted, five_digest_present⟩

def double_git_lock : LeanBunLockV1 :=
  ⟨"lean4".toList, List.replicate 40 '1', "5.0.0".toList, Sha256.repeated 8,
    Sha256.repeated 9, [double_git_package], _, lean4_valid, ones_revision_valid, lake_five_valid, by decide,
    by decide, by decide, rfl⟩

/-- A lock that the constructors accept and the reader refuses. -/
theorem double_git_not_read_back :
    LeanBunLockV1.from_canonical_text double_git_lock.to_canonical_text ≠ .ok double_git_lock := by
  intro h
  have hpackage := packages_reread_of_read_back h double_git_package List.mem_cons_self
  have hurl := (reread_self_iff double_git_package).mp hpackage double_git_url rfl
  exact absurd hurl (by decide)

end LeanBun.Lock
