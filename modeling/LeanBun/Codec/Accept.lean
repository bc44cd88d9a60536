/-
What the JSON parser accepts.

Every value of the grammar that tolerates white space inside surrogate pairs is
read, wherever it stands, if the limits allow it. The induction is on the
derivation; an element or a member is read as one round of its loop, behind any
of the white space in front of it, since `parse_array` and `parse_object` have
already skipped some.

So the parser accepts exactly the documents of that grammar. They are the
documents of RFC 8259 except for the texts with white space inside an escaped
surrogate pair.
-/
import LeanBun.Codec.Parse

set_option autoImplicit false

namespace LeanBun.Codec

open LeanBun.Lib

variable {p q : Parser} {s t : Str}

/-! ## What a value is read from -/

/-- The first characters of a number, and what they are not. -/
theorem number_first {c : Char} (h : c = '-' ∨ is_digit c = true) :
    c.toNat ≤ 127 ∧ is_ws c = false ∧ c ≠ ']' ∧ (byte c = byte '-' ∨ is_digit_byte (byte c) = true) ∧
      ∀ d ∈ ['n', 't', 'f', '"', '[', '\x7b'], byte c ≠ byte d := by
  have hascii : c.toNat ≤ 127 := by
    rcases h with rfl | h
    · decide
    · by_contra hgt
      rw [digit_kind.high_chars c (Nat.not_le.mp hgt)] at h
      cases h
  refine ⟨hascii, ?_⟩
  exact ascii_all (P := fun c => c = '-' ∨ is_digit c = true → is_ws c = false ∧ c ≠ ']' ∧
    (byte c = byte '-' ∨ is_digit_byte (byte c) = true) ∧
    ∀ d ∈ ['n', 't', 'f', '"', '[', '\x7b'], byte c ≠ byte d) (by decide) hascii h

/-- The characters that a value begins with. -/
theorem Derives.head {gap : Str → Prop} {v : StrictJson} (h : Derives gap (.value v) s) :
    ∃ c s', s = c :: s' ∧ c.toNat ≤ 127 ∧ is_ws c = false ∧ c ≠ ']' := by
  cases h with
  | null => exact ⟨_, _, rfl, by decide, by decide, by decide⟩
  | true_text => exact ⟨_, _, rfl, by decide, by decide, by decide⟩
  | false_text => exact ⟨_, _, rfl, by decide, by decide, by decide⟩
  | number hnumber =>
    obtain ⟨c, s', rfl, hc⟩ := hnumber.first
    obtain ⟨hascii, hws, hbracket, -⟩ := number_first hc
    exact ⟨c, s', rfl, hascii, hws, hbracket⟩
  | string hstring =>
    obtain ⟨chars, rfl, -⟩ := hstring
    exact ⟨_, _, rfl, by decide, by decide, by decide⟩
  | array_empty => exact ⟨_, _, rfl, by decide, by decide, by decide⟩
  | array => exact ⟨_, _, rfl, by decide, by decide, by decide⟩
  | object_empty => exact ⟨_, _, rfl, by decide, by decide, by decide⟩
  | object => exact ⟨_, _, rfl, by decide, by decide, by decide⟩

theorem Derives.not_ws {gap : Str → Prop} {v : StrictJson} (h : Derives gap (.value v) s) (t : Str) :
    (s ++ t).head?.any is_ws = false := by
  obtain ⟨c, s', rfl, -, hws, -⟩ := h.head
  simpa using hws

/-- White space that is taken off the front belongs to the white space there. -/
theorem blank_split {before body w s' : Str} (hbefore : Blank before) (hw : Blank w)
    (hbody : body.head?.any is_ws = false) (h : before ++ body = w ++ s') :
    ∃ left, Blank left ∧ s' = left ++ body := by
  rcases List.append_eq_append_iff.mp h with ⟨more, rfl, hmore⟩ | ⟨left, rfl, hleft⟩
  · rw [hmore] at hbody
    have hnil := blank_eq_nil (fun c hc => hw c (List.mem_append_right _ hc)) hbody
    subst hnil
    exact ⟨[], Blank.nil, hmore.symm⟩
  · exact ⟨left, fun c hc => hbefore c (List.mem_append_right _ hc), hleft⟩

/-- White space, and what it stands in front of, do not continue a number. -/
theorem Blank.ends {w : Str} (hw : Blank w) (ht : EndsNumber t) : EndsNumber (w ++ t) := by
  cases w with
  | nil => exact ht
  | cons c w =>
    have hc := hw c List.mem_cons_self
    have hascii : c.toNat ≤ 127 := by
      by_contra hgt
      rw [whitespace_kind.high_chars c (Nat.not_le.mp hgt)] at hc
      cases hc
    have hfacts := ascii_all (P := fun c => is_ws c = true → is_digit c = false ∧ c ≠ '.' ∧
      (c == 'e' || c == 'E') = false) (by decide) hascii hc
    exact ⟨by simpa using hfacts.1, by simpa using hfacts.2.1, by simpa using hfacts.2.2⟩

/-- A structural character does not continue a number. -/
theorem ends_structural {c : Char} (hc : c ∈ [',', ']', '\x7d']) (t : Str) : EndsNumber (c :: t) := by
  simp only [List.mem_cons, List.not_mem_nil, or_false] at hc
  rcases hc with rfl | rfl | rfl
  · exact ⟨rfl, (fun h => by cases h), rfl⟩
  · exact ⟨rfl, (fun h => by cases h), rfl⟩
  · exact ⟨rfl, (fun h => by cases h), rfl⟩

/-- `parse_value` in front of a value is the reader that the first byte announces. -/
theorem parse_value_step {w : Str} {c : Char} (levels : ℕ) (hw : Blank w) (hc : c.toNat ≤ 127)
    (hws : is_ws c = false) (hnodes : p.nodes + 1 ≤ MAX_JSON_NODES)
    (hp : p.rest = as_bytes (w ++ c :: t)) :
    parse_value (levels + 1) p = parse_kind (parse_value levels) (byte c) (p.past 1 w (c :: t)) := by
  have hcount : count_node p = .ok ((), { p with nodes := p.nodes + 1 }) := by
    rw [count_node_eq, if_neg (Nat.not_lt.mpr hnodes)]
  have hskip : skip_whitespace { p with nodes := p.nodes + 1 } = .ok ((), p.past 1 w (c :: t)) :=
    skip_whitespace_of (p := { p with nodes := p.nodes + 1 }) hw (by simpa using hws) hp
  have hpeek : peek (p.past 1 w (c :: t)) = .ok (some (byte c), p.past 1 w (c :: t)) := by
    unfold peek
    rw [past_rest, as_bytes_ascii hc]
    rfl
  rw [parse_value, bind_of hcount, bind_of hskip, bind_of hpeek]

/-- A value is read wherever it stands. -/
def AcceptsValue (v : StrictJson) (s : Str) : Prop := ∀ (levels : ℕ) (p : Parser) (w t : Str),
  Blank w → p.rest = as_bytes (w ++ (s ++ t)) → EndsNumber t → v.depth < levels →
  p.nodes + v.nodes ≤ MAX_JSON_NODES → parse_value levels p = .ok (v, p.past v.nodes (w ++ s) t)

/-- The elements of an array are read, behind any of their leading white space. -/
def AcceptsElements (values : List StrictJson) (s : Str) : Prop := ∀ w s' : Str, s = w ++ s' →
  Blank w → ∀ (levels fuel : ℕ) (done : List StrictJson) (p : Parser) (t : Str),
  p.rest = as_bytes (s' ++ ']' :: t) → depth_of_list values ≤ levels →
  p.nodes + nodes_of_list values ≤ MAX_JSON_NODES → values.length ≤ fuel →
  array_loop (parse_value levels) fuel done p =
    .ok (.Array (done ++ values), p.past (nodes_of_list values) (s' ++ [']']) t)

/-- The members of an object are read, if their keys are new. -/
def AcceptsMembers (entries : List (Str × StrictJson)) (s : Str) : Prop := ∀ w s' : Str, s = w ++ s' →
  Blank w → ∀ (levels fuel : ℕ) (done : List (Str × StrictJson)) (p : Parser) (t : Str),
  (entries.map Prod.fst).Nodup → (∀ key ∈ entries.map Prod.fst, contains_key done key = false) →
  p.rest = as_bytes (s' ++ '\x7d' :: t) → depth_of_entries entries ≤ levels →
  p.nodes + nodes_of_entries entries ≤ MAX_JSON_NODES → entries.length ≤ fuel →
  object_loop (parse_value levels) fuel done p =
    .ok (.Object (entries.foldl insert_entry done),
      p.past (nodes_of_entries entries) (s' ++ ['\x7d']) t)

/-- A value is accepted if the reader that its first byte announces takes it. -/
theorem AcceptsValue.of_kind {v : StrictJson} {c : Char} (hc : c.toNat ≤ 127) (hws : is_ws c = false)
    (count : ℕ) (hcount : v.nodes = count + 1)
    (h : ∀ (levels : ℕ) (p : Parser) (t : Str), p.rest = as_bytes (c :: (s ++ t)) → EndsNumber t →
      v.depth ≤ levels → p.nodes + count ≤ MAX_JSON_NODES →
      parse_kind (parse_value levels) (byte c) p = .ok (v, p.past count (c :: s) t)) :
    AcceptsValue v (c :: s) := by
  intro levels p w t hw hp ht hdepth hlimit
  obtain ⟨levels, rfl⟩ := Nat.exists_eq_add_of_lt hdepth
  have hp' : p.rest = as_bytes (w ++ c :: (s ++ t)) := hp
  rw [parse_value_step _ hw hc hws (by omega) hp',
    h _ _ t (past_rest ..) ht (by omega) (by rw [past_nodes]; omega), past_past, hcount,
    Nat.add_comm count]

/-- One element, in front of the rest of the array. -/
theorem array_loop_step {v : StrictJson} {left after : Str} {levels fuel : ℕ}
    {done : List StrictJson} (hv : AcceptsValue v s) (hleft : Blank left) (hafter : Blank after)
    {c : Char} (hc : c ∈ [',', ']', '\x7d']) (hdepth : v.depth < levels)
    (hnodes : p.nodes + v.nodes ≤ MAX_JSON_NODES)
    (hp : p.rest = as_bytes (left ++ (s ++ (after ++ c :: t)))) :
    array_loop (parse_value levels) (fuel + 1) done p =
      (do if ← take_if (byte ']') then
            return .Array (done ++ [v])
          else
            consume (byte ',')
            array_loop (parse_value levels) fuel (done ++ [v]) : ParserM StrictJson)
        (p.past v.nodes (left ++ (s ++ after)) (c :: t)) := by
  have hws : is_ws c = false := by
    simp only [List.mem_cons, List.not_mem_nil, or_false] at hc
    rcases hc with rfl | rfl | rfl <;> rfl
  have hvalue := hv levels p left (after ++ c :: t) hleft hp (hafter.ends (ends_structural hc t)) hdepth
    hnodes
  have hskip := skip_whitespace_of (t := c :: t) hafter (by simpa using hws)
    (past_rest p v.nodes (left ++ s) (after ++ c :: t))
  rw [past_past, List.append_assoc] at hskip
  rw [array_loop, bind_of hvalue, bind_of hskip]
  rfl

/-- One member, in front of the rest of the object. -/
theorem object_loop_step {v : StrictJson} {key left name between colon after : Str}
    {levels fuel : ℕ} {done : List (Str × StrictJson)} (hname : StringText Blank name key)
    (hv : AcceptsValue v s) (hleft : Blank left) (hbetween : Blank between) (hcolon : Blank colon)
    (hafter : Blank after) {c : Char} (hc : c ∈ [',', ']', '\x7d'])
    (hnew : contains_key done key = false) (hdepth : v.depth < levels)
    (hnodes : p.nodes + v.nodes ≤ MAX_JSON_NODES)
    (hp : p.rest =
      as_bytes (left ++ (name ++ (between ++ ':' :: (colon ++ (s ++ (after ++ c :: t))))))) :
    object_loop (parse_value levels) (fuel + 1) done p =
      (do if ← take_if (byte '\x7d') then
            return .Object (insert_entry done (key, v))
          else
            consume (byte ',')
            object_loop (parse_value levels) fuel (insert_entry done (key, v)) : ParserM StrictJson)
        (p.past v.nodes (left ++ (name ++ (between ++ ':' :: (colon ++ (s ++ after))))) (c :: t)) := by
  have hws : is_ws c = false := by
    simp only [List.mem_cons, List.not_mem_nil, or_false] at hc
    rcases hc with rfl | rfl | rfl <;> rfl
  have hquote : name.head? = some '"' := by
    obtain ⟨chars, rfl, -⟩ := hname
    rfl
  obtain ⟨name', rfl⟩ := List.head?_eq_some_iff.mp hquote
  have hskip := skip_whitespace_of hleft (by rfl) hp
  have hstring : ∀ u, parse_string (p.past 0 left ('"' :: name' ++ u)) =
      .ok (key, p.past 0 (left ++ '"' :: name') u) := fun u => by
    refine (parse_string_of Blank.nil hname (past_rest p 0 left ([] ++ ('"' :: name' ++ u)))).trans ?_
    rw [past_past]
    rfl
  have hskip' : ∀ u, skip_whitespace (p.past 0 (left ++ '"' :: name') (between ++ ':' :: u)) =
      .ok ((), p.past 0 (left ++ '"' :: name' ++ between) (':' :: u)) := fun u => by
    refine (skip_whitespace_of hbetween (by rfl) (past_rest ..)).trans ?_
    rw [past_past]
  have hvalue := hv levels (p.past 0 (left ++ '"' :: name' ++ between ++ [':']) _) colon
    (after ++ c :: t) hcolon (past_rest ..) (hafter.ends (ends_structural hc t)) hdepth hnodes
  have hskip'' := skip_whitespace_of (t := c :: t) hafter (by simpa using hws)
    (past_rest p v.nodes (left ++ '"' :: name' ++ between ++ [':'] ++ (colon ++ s)) (after ++ c :: t))
  rw [past_past, Nat.zero_add] at hvalue
  rw [past_past] at hskip''
  rw [object_loop, bind_of hskip, bind_of (hstring _)]
  simp only [hnew, Bool.false_eq_true, if_false]
  rw [bind_of (hskip' _), bind_of (consume_past (by decide) (by decide) ..), bind_of hvalue, bind_of hskip'']
  simp only [List.append_assoc, List.cons_append, List.nil_append, Nat.add_zero]

/-! ## Completeness -/

/-- The elements or members in a phrase. -/
def Phrase.size : Phrase → ℕ
  | .value _ => 0
  | .elements values => values.length
  | .members entries => entries.length

/-- Every element and every member takes a character. -/
theorem Derives.size_le {gap : Str → Prop} {phrase : Phrase} (h : Derives gap phrase s) :
    phrase.size ≤ s.length := by
  induction h with
  | element _ hs _ =>
    obtain ⟨c, s', rfl, -⟩ := hs.head
    simp only [Phrase.size, List.length_append, List.length_cons, List.length_nil]
    omega
  | more_elements _ _ _ _ _ ih =>
    simp only [Phrase.size, List.length_append, List.length_cons] at ih ⊢
    omega
  | member _ _ _ _ _ _ =>
    simp only [Phrase.size, List.length_append, List.length_cons, List.length_nil]
    omega
  | more_members _ _ _ _ _ _ _ _ ih =>
    simp only [Phrase.size, List.length_append, List.length_cons] at ih ⊢
    omega
  | _ => exact Nat.zero_le _

/-- The white space in front of the first element. -/
theorem Derives.elements_front {gap : Str → Prop} {values : List StrictJson}
    (h : Derives gap (.elements values) s) : ∃ w s', s = w ++ s' ∧ Blank w ∧
      Derives gap (.elements values) s' ∧
      ∃ c rest, s' = c :: rest ∧ c.toNat ≤ 127 ∧ is_ws c = false ∧ c ≠ ']' := by
  cases h with
  | element hbefore hs hafter =>
    obtain ⟨c, rest, rfl, hc⟩ := hs.head
    exact ⟨_, _, rfl, hbefore, Derives.element Blank.nil hs hafter, c, _, rfl, hc⟩
  | more_elements hbefore hs hafter htail =>
    obtain ⟨c, rest, rfl, hc⟩ := hs.head
    exact ⟨_, _, rfl, hbefore, Derives.more_elements Blank.nil hs hafter htail, c, _, rfl, hc⟩

theorem Derives.members_front {gap : Str → Prop} {entries : List (Str × StrictJson)}
    (h : Derives gap (.members entries) s) : ∃ w s', s = w ++ s' ∧ Blank w ∧
      Derives gap (.members entries) s' ∧ ∃ rest, s' = '"' :: rest := by
  cases h with
  | member hbefore hname hbetween hcolon hs hafter =>
    obtain ⟨chars, rfl, hchars⟩ := hname
    exact ⟨_, _, rfl, hbefore,
      Derives.member Blank.nil ⟨chars, rfl, hchars⟩ hbetween hcolon hs hafter, _, rfl⟩
  | more_members hbefore hname hbetween hcolon hs hafter htail =>
    obtain ⟨chars, rfl, hchars⟩ := hname
    exact ⟨_, _, rfl, hbefore,
      Derives.more_members Blank.nil ⟨chars, rfl, hchars⟩ hbetween hcolon hs hafter htail, _, rfl⟩

/-- An array of accepted elements is accepted. -/
theorem AcceptsElements.array {values : List StrictJson} (hs : Derives Blank (.elements values) s)
    (h : AcceptsElements values s) : AcceptsValue (.Array values) ('[' :: (s ++ [']'])) := by
  refine AcceptsValue.of_kind (by decide) (by decide) _ (Nat.add_comm ..) ?_
  intro levels p t hp _ hdepth hnodes
  obtain ⟨w, s', rfl, hw, hs', c, rest, rfl, hc, hws, hbracket⟩ := hs.elements_front
  have hp' : p.rest = as_bytes ([] ++ '[' :: (w ++ (c :: rest ++ ']' :: t))) := by
    rw [hp]
    simp
  have hskip : skip_whitespace (p.past 0 ([] ++ ['[']) (w ++ (c :: rest ++ ']' :: t))) =
      .ok ((), p.past 0 ('[' :: w) (c :: rest ++ ']' :: t)) := by
    refine (skip_whitespace_of hw (by simpa using hws) (past_rest ..)).trans ?_
    rw [past_past]
    rfl
  have hmiss := take_if_miss (c := ']') (t := c :: rest ++ ']' :: t) (by decide)
    (past_rest p 0 ('[' :: w) _) (by simpa using hbracket)
  have hget : (get : ParserM Parser) (p.past 0 ('[' :: w) (c :: rest ++ ']' :: t)) =
    .ok (p.past 0 ('[' :: w) (c :: rest ++ ']' :: t), p.past 0 ('[' :: w) (c :: rest ++ ']' :: t)) := rfl
  have hfuel : values.length ≤ (as_bytes (c :: rest ++ ']' :: t)).length + 1 := by
    have hsize := hs'.size_le
    have hbytes := length_le_byte_len (c :: rest ++ ']' :: t)
    unfold byte_len at hbytes
    simp only [Phrase.size] at hsize
    rw [List.length_append] at hbytes
    omega
  have hloop := h w (c :: rest) rfl hw levels _ [] (p.past 0 ('[' :: w) _) t (past_rest ..) hdepth
    hnodes hfuel
  have hkind : parse_kind (parse_value levels) (byte '[') p = parse_array (parse_value levels) p := rfl
  rw [hkind]
  unfold parse_array
  rw [bind_of (consume_of (by decide) (by decide) Blank.nil hp'), bind_of hskip, bind_of hmiss]
  simp only [Bool.false_eq_true, if_false]
  rw [bind_of hget]
  refine hloop.trans ?_
  simp

/-- An object of accepted members is accepted. -/
theorem AcceptsMembers.object {entries : List (Str × StrictJson)}
    (hs : Derives Blank (.members entries) s) (hnodup : (entries.map Prod.fst).Nodup)
    (h : AcceptsMembers entries s) :
    AcceptsValue (.Object (btree_map entries)) ('\x7b' :: (s ++ ['\x7d'])) := by
  have hcount : (StrictJson.Object (btree_map entries)).nodes = nodes_of_entries entries + 1 := by
    show 1 + nodes_of_entries (btree_map entries) = _
    rw [nodes_of_entries_perm (btree_map_perm entries), Nat.add_comm]
  refine AcceptsValue.of_kind (by decide) (by decide) _ hcount ?_
  intro levels p t hp _ hdepth hnodes
  have hdepth' : depth_of_entries entries ≤ levels := by
    rwa [← depth_of_entries_perm (btree_map_perm entries)]
  obtain ⟨w, s', rfl, hw, hs', rest, rfl⟩ := hs.members_front
  have hp' : p.rest = as_bytes ([] ++ '\x7b' :: (w ++ ('"' :: rest ++ '\x7d' :: t))) := by
    rw [hp]
    simp
  have hskip : skip_whitespace (p.past 0 ([] ++ ['\x7b']) (w ++ ('"' :: rest ++ '\x7d' :: t))) =
      .ok ((), p.past 0 ('\x7b' :: w) ('"' :: rest ++ '\x7d' :: t)) := by
    refine (skip_whitespace_of hw (by rfl) (past_rest ..)).trans ?_
    rw [past_past]
    rfl
  have hmiss := take_if_miss (c := '\x7d') (t := '"' :: rest ++ '\x7d' :: t) (by decide)
    (past_rest p 0 ('\x7b' :: w) _) (fun h => by cases h)
  have hget : (get : ParserM Parser) (p.past 0 ('\x7b' :: w) ('"' :: rest ++ '\x7d' :: t)) =
    .ok (p.past 0 ('\x7b' :: w) ('"' :: rest ++ '\x7d' :: t),
      p.past 0 ('\x7b' :: w) ('"' :: rest ++ '\x7d' :: t)) := rfl
  have hfuel : entries.length ≤ (as_bytes ('"' :: rest ++ '\x7d' :: t)).length + 1 := by
    have hsize := hs'.size_le
    have hbytes := length_le_byte_len ('"' :: rest ++ '\x7d' :: t)
    unfold byte_len at hbytes
    simp only [Phrase.size] at hsize
    rw [List.length_append] at hbytes
    omega
  have hloop := h w ('"' :: rest) rfl hw levels _ [] (p.past 0 ('\x7b' :: w) _) t hnodup
    (fun _ _ => rfl) (past_rest ..) hdepth' hnodes hfuel
  have hkind : parse_kind (parse_value levels) (byte '\x7b') p =
    parse_object (parse_value levels) p := rfl
  rw [hkind]
  unfold parse_object
  rw [bind_of (consume_of (by decide) (by decide) Blank.nil hp'), bind_of hskip, bind_of hmiss]
  simp only [Bool.false_eq_true, if_false]
  rw [bind_of hget]
  refine hloop.trans ?_
  rw [past_past]
  simp [btree_map]

/-- Brackets with white space between them. -/
theorem parse_empty_array {element : ParserM StrictJson} {ws : Str} (hws : Blank ws)
    (hp : p.rest = as_bytes ('[' :: ((ws ++ [']']) ++ t))) :
    parse_array element p = .ok (.Array [], p.past 0 ('[' :: (ws ++ [']'])) t) := by
  have hp' : p.rest = as_bytes ([] ++ '[' :: (ws ++ ']' :: t)) := by
    rw [hp]
    simp
  unfold parse_array
  rw [bind_of (consume_of (by decide) (by decide) Blank.nil hp'),
    bind_of (skip_whitespace_of hws (by rfl) (past_rest ..)),
    bind_of (take_if_hit (by decide) (past_rest ..))]
  simp only [past_past, List.nil_append, List.cons_append]
  rfl

theorem parse_empty_object {element : ParserM StrictJson} {ws : Str} (hws : Blank ws)
    (hp : p.rest = as_bytes ('\x7b' :: ((ws ++ ['\x7d']) ++ t))) :
    parse_object element p = .ok (.Object [], p.past 0 ('\x7b' :: (ws ++ ['\x7d'])) t) := by
  have hp' : p.rest = as_bytes ([] ++ '\x7b' :: (ws ++ '\x7d' :: t)) := by
    rw [hp]
    simp
  unfold parse_object
  rw [bind_of (consume_of (by decide) (by decide) Blank.nil hp'),
    bind_of (skip_whitespace_of hws (by rfl) (past_rest ..)),
    bind_of (take_if_hit (by decide) (past_rest ..))]
  simp only [past_past, List.nil_append, List.cons_append]
  rfl

/-- A string begins with its quote. -/
theorem StringText.not_ws {gap : Str → Prop} {value : Str} (h : StringText gap s value) (t : Str) :
    (s ++ t).head?.any is_ws = false := by
  obtain ⟨chars, rfl, -⟩ := h
  rfl

/-- The phrase is read. -/
def Accepts : Phrase → Str → Prop
  | .value v, s => AcceptsValue v s
  | .elements values, s => AcceptsElements values s
  | .members entries, s => AcceptsMembers entries s

/-- **Completeness.** Every phrase of the grammar that tolerates white space inside
surrogate pairs is read, within the limits. -/
theorem Derives.accepts {phrase : Phrase} (h : Derives Blank phrase s) : Accepts phrase s := by
  have hliteral : ∀ {e : Str} {v : StrictJson} {c : Char}, c.toNat ≤ 127 → is_ws c = false →
      v.nodes = 1 → (∀ element p, parse_kind element (byte c) p =
        (do literal (c :: e); return v : ParserM StrictJson) p) → AcceptsValue v (c :: e) := by
    intro e v c hc hws hcount hkind
    refine AcceptsValue.of_kind hc hws 0 hcount fun levels p t hp _ _ _ => ?_
    rw [hkind, bind_of (literal_of hp)]
    rfl
  induction h with
  | null => exact hliteral (by decide) (by decide) rfl fun _ _ => rfl
  | true_text => exact hliteral (by decide) (by decide) rfl fun _ _ => rfl
  | false_text => exact hliteral (by decide) (by decide) rfl fun _ _ => rfl
  | number hnumber =>
    obtain ⟨c, s', rfl, hc⟩ := hnumber.first
    obtain ⟨hascii, hws, -, hkind, hne⟩ := number_first hc
    refine AcceptsValue.of_kind hascii hws 0 rfl fun levels p t hp ht _ _ => ?_
    simp only [List.mem_cons, List.not_mem_nil, or_false, forall_eq_or_imp, forall_eq] at hne
    obtain ⟨h₁, h₂, h₃, h₄, h₅, h₆⟩ := hne
    unfold parse_kind
    rw [if_neg h₁, if_neg h₂, if_neg h₃, if_neg h₄, if_neg h₅, if_neg h₆, if_pos hkind,
      bind_of (parse_number_of hnumber ht hp)]
    rfl
  | string hstring =>
    obtain ⟨chars, rfl, hchars⟩ := hstring
    refine AcceptsValue.of_kind (by decide) (by decide) 0 rfl fun levels p t hp _ _ _ => ?_
    have hread := parse_string_of (t := t) Blank.nil ⟨chars, rfl, hchars⟩ hp
    have hkind : parse_kind (parse_value levels) (byte '"') p =
      (do return .String (← parse_string) : ParserM StrictJson) p := rfl
    rw [hkind, bind_of hread]
    rfl
  | @array_empty ws hws =>
    refine AcceptsValue.of_kind (by decide) (by decide) 0 rfl fun levels p t hp _ _ _ => ?_
    have hkind : parse_kind (parse_value levels) (byte '[') p = parse_array (parse_value levels) p := rfl
    rw [hkind]
    exact parse_empty_array hws hp
  | array hs ih => exact AcceptsElements.array hs ih
  | @object_empty ws hws =>
    refine AcceptsValue.of_kind (by decide) (by decide) 0 rfl fun levels p t hp _ _ _ => ?_
    have hkind : parse_kind (parse_value levels) (byte '\x7b') p =
      parse_object (parse_value levels) p := rfl
    rw [hkind]
    exact parse_empty_object hws hp
  | object hs hnodup ih => exact AcceptsMembers.object hs hnodup ih
  | @element v before s after hbefore hs hafter ih =>
    intro w s' hsplit hw levels fuel done p t hp hdepth hnodes hfuel
    obtain ⟨left, hleft, rfl⟩ := blank_split hbefore hw (hs.not_ws after) hsplit
    obtain ⟨fuel, rfl⟩ := Nat.exists_eq_add_of_le' hfuel
    have hp' : p.rest = as_bytes (left ++ (s ++ (after ++ ']' :: t))) := by
      rw [hp]
      simp
    simp only [depth_of_list] at hdepth
    simp only [nodes_of_list] at hnodes
    rw [List.length_singleton, array_loop_step ih hleft hafter (by decide) (by omega) (by omega) hp',
      bind_of (take_if_hit (by decide) (past_rest ..)), past_past]
    rfl
  | @more_elements v values before s after tail hbefore hs hafter htail ih ihtail =>
    intro w s' hsplit hw levels fuel done p t hp hdepth hnodes hfuel
    obtain ⟨left, hleft, rfl⟩ := blank_split hbefore hw (hs.not_ws _) hsplit
    rw [List.length_cons] at hfuel
    obtain ⟨fuel, rfl⟩ := Nat.exists_eq_add_of_le' (Nat.le_trans (Nat.le_add_left 1 _) hfuel)
    have hp' : p.rest = as_bytes (left ++ (s ++ (after ++ ',' :: (tail ++ ']' :: t)))) := by
      rw [hp]
      simp
    simp only [depth_of_list] at hdepth
    simp only [nodes_of_list] at hnodes
    have hloop := ihtail [] tail rfl Blank.nil levels fuel (done ++ [v])
      (p.past v.nodes (left ++ (s ++ after) ++ [',']) (tail ++ ']' :: t)) t (past_rest ..) (by omega) (by simp only [past_nodes]; omega) (by omega)
    rw [array_loop_step ih hleft hafter (by decide) (by omega) (by omega) hp',
      bind_of (take_if_miss (by decide) (past_rest ..) (fun h => by cases h))]
    simp only [Bool.false_eq_true, if_false]
    rw [bind_of (consume_past (by decide) (by decide) ..)]
    refine hloop.trans ?_
    simp [nodes_of_list]
  | @member v key before name between colon s after hbefore hname hbetween hcolon hs hafter ih =>
    intro w s' hsplit hw levels fuel done p t _ hkeys hp hdepth hnodes hfuel
    obtain ⟨left, hleft, rfl⟩ := blank_split hbefore hw (hname.not_ws _) hsplit
    obtain ⟨fuel, rfl⟩ := Nat.exists_eq_add_of_le' hfuel
    have hp' : p.rest =
        as_bytes (left ++ (name ++ (between ++ ':' :: (colon ++ (s ++ (after ++ '\x7d' :: t)))))) := by
      rw [hp]
      simp
    simp only [depth_of_entries] at hdepth
    simp only [nodes_of_entries] at hnodes
    rw [List.length_singleton, object_loop_step hname ih hleft hbetween hcolon hafter (by decide)
        (hkeys key List.mem_cons_self) (by omega) (by omega) hp',
      bind_of (take_if_hit (by decide) (past_rest ..)), past_past]
    simp [nodes_of_entries]
    rfl
  | @more_members v entries key before name between colon s after tail hbefore hname hbetween hcolon hs
      hafter htail ih ihtail =>
    intro w s' hsplit hw levels fuel done p t hnodup hkeys hp hdepth hnodes hfuel
    obtain ⟨left, hleft, rfl⟩ := blank_split hbefore hw (hname.not_ws _) hsplit
    rw [List.length_cons] at hfuel
    obtain ⟨fuel, rfl⟩ := Nat.exists_eq_add_of_le' (Nat.le_trans (Nat.le_add_left 1 _) hfuel)
    have hp' : p.rest = as_bytes (left ++ (name ++ (between ++ ':' :: (colon ++ (s ++
        (after ++ ',' :: (tail ++ '\x7d' :: t))))))) := by
      rw [hp]
      simp
    simp only [depth_of_entries] at hdepth
    simp only [nodes_of_entries] at hnodes
    obtain ⟨hnot, hnodup'⟩ := List.nodup_cons.mp hnodup
    have hkeys' : ∀ key' ∈ entries.map Prod.fst,
        contains_key (insert_entry done (key, v)) key' = false := fun key' hkey' =>
      contains_key_insert.mpr ⟨fun heq => hnot (heq ▸ hkey'), hkeys key' (List.mem_cons_of_mem _ hkey')⟩
    have hloop := ihtail [] tail rfl Blank.nil levels fuel (insert_entry done (key, v))
      (p.past v.nodes (left ++ (name ++ (between ++ ':' :: (colon ++ (s ++ after)))) ++ [','])
        (tail ++ '\x7d' :: t)) t hnodup' hkeys'
      (past_rest ..) (by omega) (by simp only [past_nodes]; omega) (by omega)
    rw [object_loop_step hname ih hleft hbetween hcolon hafter (by decide)
        (hkeys key List.mem_cons_self) (by omega) (by omega) hp',
      bind_of (take_if_miss (by decide) (past_rest ..) (fun h => by cases h))]
    simp only [Bool.false_eq_true, if_false]
    rw [bind_of (consume_past (by decide) (by decide) ..)]
    refine hloop.trans ?_
    simp [nodes_of_entries]

end LeanBun.Codec
