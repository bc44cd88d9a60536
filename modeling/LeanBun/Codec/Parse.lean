/-
What the JSON parser reads.

`parse_value` reads a value of the grammar that tolerates white space inside
surrogate pairs, within the limits. The proof follows the loops: an array or an
object is read element by element, with one level less for what stands in it,
and the values counted are the nodes of what was read.
-/
import LeanBun.Codec.Numbers

set_option autoImplicit false

namespace LeanBun.Codec

open LeanBun.Lib

variable {p q : Parser} {s t : Str}

/-! ## Literals -/

theorem as_bytes_eq_append {e : Str} (he : ∀ c ∈ e, c.toNat ≤ 127) {bytes : List UInt8}
    (h : as_bytes t = as_bytes e ++ bytes) : ∃ t', t = e ++ t' ∧ bytes = as_bytes t' := by
  induction e generalizing t with
  | nil => exact ⟨t, rfl, h.symm⟩
  | cons c e ih =>
    have hc := he c List.mem_cons_self
    rw [as_bytes_ascii hc] at h
    obtain ⟨t₁, rfl, h₁⟩ := as_bytes_eq_cons hc h
    obtain ⟨t', rfl, h'⟩ := ih (fun c hc => he c (List.mem_cons_of_mem _ hc)) h₁.symm
    exact ⟨t', rfl, h'⟩

theorem literal_ok {e : Str} (he : ∀ c ∈ e, c.toNat ≤ 127) (hp : p.rest = as_bytes t)
    (h : literal e p = .ok ((), q)) : ∃ t', t = e ++ t' ∧ q = p.past 0 e t' := by
  have hget : (get : ParserM Parser) p = .ok (p, p) := rfl
  unfold literal at h
  rw [bind_of hget] at h
  split_ifs at h with htake
  · have hsplit : as_bytes t = as_bytes e ++ p.rest.drop (byte_len e) := by
      rw [← hp, ← htake, List.take_append_drop]
    obtain ⟨t', rfl, -⟩ := as_bytes_eq_append he hsplit
    rw [advance_of hp] at h
    cases h
    exact ⟨t', rfl, rfl⟩
  · cases h

theorem literal_of {e : Str} (hp : p.rest = as_bytes (e ++ t)) :
    literal e p = .ok ((), p.past 0 e t) := by
  have hget : (get : ParserM Parser) p = .ok (p, p) := rfl
  have htake : p.rest.take (byte_len e) = as_bytes e := by
    rw [hp, as_bytes_append, byte_len, List.take_left]
  unfold literal
  rw [bind_of hget, if_pos htake, advance_of hp]

/-! ## The maps of objects -/

theorem contains_key_iff {α : Type} {values : List (Str × α)} {key : Str} :
    contains_key values key = true ↔ key ∈ values.map Prod.fst := by
  simp [contains_key]

theorem insert_entry_perm {α : Type} (values : List (Str × α)) (entry : Str × α) :
    (insert_entry values entry).Perm (entry :: values) := List.perm_orderedInsert ..

/-- The map of some entries has these entries. -/
theorem foldl_insert_perm (values entries : List (Str × StrictJson)) :
    (entries.foldl insert_entry values).Perm (values ++ entries) := by
  induction entries generalizing values with
  | nil => rw [List.append_nil]; exact List.Perm.refl _
  | cons entry entries ih =>
    refine (ih _).trans (((insert_entry_perm values entry).append_right entries).trans ?_)
    exact List.perm_middle.symm

theorem btree_map_perm (entries : List (Str × StrictJson)) : (btree_map entries).Perm entries :=
  foldl_insert_perm [] entries

theorem nodes_of_entries_perm {l l' : List (Str × StrictJson)} (h : l.Perm l') :
    nodes_of_entries l = nodes_of_entries l' := by
  induction h with
  | nil => rfl
  | cons entry _ ih => rw [nodes_of_entries, nodes_of_entries, ih]
  | swap a b l =>
    rw [nodes_of_entries, nodes_of_entries, nodes_of_entries, nodes_of_entries]
    omega
  | trans _ _ ih ih' => exact ih.trans ih'

theorem depth_of_entries_perm {l l' : List (Str × StrictJson)} (h : l.Perm l') :
    depth_of_entries l = depth_of_entries l' := by
  induction h with
  | nil => rfl
  | cons entry _ ih => rw [depth_of_entries, depth_of_entries, ih]
  | swap a b l =>
    rw [depth_of_entries, depth_of_entries, depth_of_entries, depth_of_entries]
    omega
  | trans _ _ ih ih' => exact ih.trans ih'

/-- A key that is not inserted is not in the map afterwards. -/
theorem contains_key_insert {values : List (Str × StrictJson)} {key key' : Str} {v : StrictJson} :
    contains_key (insert_entry values (key, v)) key' = false ↔
      key' ≠ key ∧ contains_key values key' = false := by
  rw [← Bool.not_eq_true, ← Bool.not_eq_true, contains_key_iff, contains_key_iff,
    ((insert_entry_perm values (key, v)).map Prod.fst).mem_iff, List.map_cons, List.mem_cons, not_or]

/-! ## What a value reads -/

/-- The reader of a value takes white space and a value of the grammar, of a depth
below `levels`, and counts its nodes within the limit. -/
def ReadsValue (element : ParserM StrictJson) (levels : ℕ) : Prop :=
  ∀ {p q : Parser} {t : Str} {v : StrictJson}, p.rest = as_bytes t → element p = .ok (v, q) →
    ∃ w s t', t = w ++ (s ++ t') ∧ Blank w ∧ Derives Blank (.value v) s ∧ v.depth < levels ∧
      p.nodes + v.nodes ≤ MAX_JSON_NODES ∧ q = p.past v.nodes (w ++ s) t'

/-- White space in front of the elements belongs to the first of them. -/
theorem Derives.blank_elements {gap : Str → Prop} {values : List StrictJson} {w : Str} (hw : Blank w)
    (h : Derives gap (.elements values) s) : Derives gap (.elements values) (w ++ s) := by
  cases h with
  | element hbefore hs hafter =>
    rw [← List.append_assoc]
    exact Derives.element (hw.append hbefore) hs hafter
  | more_elements hbefore hs hafter htail =>
    rw [← List.append_assoc]
    exact Derives.more_elements (hw.append hbefore) hs hafter htail

theorem Derives.blank_members {gap : Str → Prop} {entries : List (Str × StrictJson)} {w : Str}
    (hw : Blank w) (h : Derives gap (.members entries) s) :
    Derives gap (.members entries) (w ++ s) := by
  cases h with
  | member hbefore hname hbetween hcolon hs hafter =>
    rw [← List.append_assoc]
    exact Derives.member (hw.append hbefore) hname hbetween hcolon hs hafter
  | more_members hbefore hname hbetween hcolon hs hafter htail =>
    rw [← List.append_assoc]
    exact Derives.more_members (hw.append hbefore) hname hbetween hcolon hs hafter htail

/-- **The elements of an array, read.** -/
theorem array_loop_ok {element : ParserM StrictJson} {levels fuel : ℕ}
    (helement : ReadsValue element levels) (values : List StrictJson) (hp : p.rest = as_bytes t)
    {v : StrictJson} (h : array_loop element fuel values p = .ok (v, q)) :
    ∃ more s t', v = .Array (values ++ more) ∧ t = s ++ ']' :: t' ∧
      Derives Blank (.elements more) s ∧ depth_of_list more ≤ levels ∧
      p.nodes + nodes_of_list more ≤ MAX_JSON_NODES ∧
      q = p.past (nodes_of_list more) (s ++ [']']) t' := by
  induction fuel generalizing p t values with
  | zero => cases h
  | succ fuel ih =>
    rw [array_loop] at h
    obtain ⟨one, _, hone, h₁⟩ := bind_ok.mp h
    obtain ⟨w, s, t₁, rfl, hw, hs, hdepth, hnodes, rfl⟩ := helement hp hone
    obtain ⟨w', t₂, rfl, hw', -, hskip⟩ := skip_whitespace_past p one.nodes (w ++ s) t₁
    rw [bind_of hskip] at h₁
    obtain ⟨taken, r, htake, h₂⟩ := bind_ok.mp h₁
    rcases take_if_cases (by decide) (past_rest ..) htake with ⟨rfl, t', rfl, rfl⟩ | ⟨rfl, rfl, -⟩
    · cases h₂
      refine ⟨[one], w ++ (s ++ w'), t', rfl, by simp, Derives.element hw hs hw', ?_, ?_, ?_⟩
      · show max (one.depth + 1) 0 ≤ levels
        omega
      · exact hnodes
      · simp [nodes_of_list]
    · obtain ⟨_, _, hcomma, h₃⟩ := bind_ok.mp h₂
      obtain ⟨w'', t₃, rfl, hw'', rfl⟩ := consume_ok (by decide) (past_rest ..) hcomma
      rw [past_past] at h₃
      obtain ⟨more, tail, t', rfl, rfl, htail, hdepth', hnodes', rfl⟩ := ih _ (past_rest ..) h₃
      refine ⟨one :: more, w ++ (s ++ ((w' ++ w'') ++ ',' :: tail)), t', by simp, by simp,
        Derives.more_elements hw hs (hw'.append hw'') htail, ?_, ?_, ?_⟩
      · show max (one.depth + 1) (depth_of_list more) ≤ levels
        omega
      · rw [nodes_of_list]
        simp only [past_nodes] at hnodes'
        omega
      · simp [nodes_of_list]

/-- **The members of an object, read.** Their keys are new and distinct. -/
theorem object_loop_ok {element : ParserM StrictJson} {levels fuel : ℕ}
    (helement : ReadsValue element levels) (values : List (Str × StrictJson))
    (hp : p.rest = as_bytes t) {v : StrictJson}
    (h : object_loop element fuel values p = .ok (v, q)) :
    ∃ more s t', v = .Object (more.foldl insert_entry values) ∧ t = s ++ '}' :: t' ∧
      Derives Blank (.members more) s ∧ (more.map Prod.fst).Nodup ∧
      (∀ key ∈ more.map Prod.fst, contains_key values key = false) ∧
      depth_of_entries more ≤ levels ∧ p.nodes + nodes_of_entries more ≤ MAX_JSON_NODES ∧
      q = p.past (nodes_of_entries more) (s ++ ['}']) t' := by
  induction fuel generalizing p t values with
  | zero => cases h
  | succ fuel ih =>
    rw [object_loop] at h
    obtain ⟨before, t₁, rfl, hbefore, -, hskip⟩ := skip_whitespace_spec hp
    rw [bind_of hskip] at h
    obtain ⟨key, _, hkey, h₁⟩ := bind_ok.mp h
    obtain ⟨before', name, t₂, rfl, hbefore', hname, rfl⟩ := parse_string_ok (past_rest ..) hkey
    by_cases hnew : contains_key values key = true
    · rw [if_pos hnew] at h₁
      cases h₁
    rw [if_neg hnew, past_past] at h₁
    have hnew' : contains_key values key = false := Bool.eq_false_iff.mpr hnew
    obtain ⟨between, t₃, rfl, hbetween, -, hskip⟩ := skip_whitespace_past p (0 + 0)
      (before ++ (before' ++ name)) t₂
    rw [bind_of hskip] at h₁
    obtain ⟨_, _, hcolon, h₂⟩ := bind_ok.mp h₁
    obtain ⟨between', t₄, rfl, hbetween', rfl⟩ := consume_ok (by decide) (past_rest ..) hcolon
    obtain ⟨one, _, hone, h₃⟩ := bind_ok.mp h₂
    rw [past_past] at hone
    obtain ⟨colon, s, t₅, rfl, hblank, hs, hdepth, hnodes, rfl⟩ := helement (past_rest ..) hone
    rw [past_past] at h₃
    obtain ⟨after, t₆, rfl, hafter, -, hskip⟩ := skip_whitespace_past p (0 + 0 + 0 + one.nodes)
      (before ++ (before' ++ name) ++ between ++ (between' ++ [':']) ++ (colon ++ s)) t₅
    rw [bind_of hskip] at h₃
    obtain ⟨taken, r, htake, h₄⟩ := bind_ok.mp h₃
    simp only [past_nodes] at hnodes
    rcases take_if_cases (by decide) (past_rest ..) htake with ⟨rfl, t', rfl, rfl⟩ | ⟨rfl, rfl, -⟩
    · cases h₄
      refine ⟨[(key, one)], _, t', rfl, ?_, Derives.member (hbefore.append hbefore') hname
        (hbetween.append hbetween') hblank hs hafter, by simp, by simpa using hnew', ?_, ?_, ?_⟩
      · simp
      · show max (one.depth + 1) 0 ≤ levels
        omega
      · exact hnodes
      · simp [nodes_of_entries]
    · obtain ⟨_, _, hcomma, h₅⟩ := bind_ok.mp h₄
      obtain ⟨after', t₇, rfl, hafter', rfl⟩ := consume_ok (by decide) (past_rest ..) hcomma
      rw [past_past] at h₅
      obtain ⟨more, tail, t', rfl, rfl, htail, hnodup, hkeys, hdepth', hnodes', rfl⟩ :=
        ih _ (past_rest ..) h₅
      have hfresh : ∀ key' ∈ more.map Prod.fst, key' ≠ key ∧ contains_key values key' = false :=
        fun key' hkey' => contains_key_insert.mp (hkeys key' hkey')
      refine ⟨(key, one) :: more, _, t', rfl, ?_, Derives.more_members (hbefore.append hbefore') hname
        (hbetween.append hbetween') hblank hs (hafter.append hafter') htail, ?_, ?_, ?_, ?_, ?_⟩
      · simp
      · exact List.nodup_cons.mpr ⟨fun hmem => (hfresh key hmem).1 rfl, hnodup⟩
      · intro key' hkey'
        rcases List.mem_cons.mp hkey' with rfl | hkey'
        · exact hnew'
        · exact (hfresh key' hkey').2
      · show max (one.depth + 1) (depth_of_entries more) ≤ levels
        omega
      · rw [nodes_of_entries]
        simp only [past_nodes] at hnodes'
        omega
      · simp [nodes_of_entries]

theorem parse_array_ok {element : ParserM StrictJson} {levels : ℕ} (helement : ReadsValue element levels)
    (hp : p.rest = as_bytes t) {v : StrictJson} (h : parse_array element p = .ok (v, q)) :
    ∃ w s t' count, t = w ++ (s ++ t') ∧ Blank w ∧ Derives Blank (.value v) s ∧ v.nodes = count + 1 ∧
      v.depth ≤ levels ∧ (count = 0 ∨ p.nodes + count ≤ MAX_JSON_NODES) ∧
      q = p.past count (w ++ s) t' := by
  unfold parse_array at h
  obtain ⟨_, _, hopen, h₁⟩ := bind_ok.mp h
  obtain ⟨w, t₁, rfl, hw, rfl⟩ := consume_ok (by decide) hp hopen
  obtain ⟨ws, t₂, rfl, hws, -, hskip⟩ := skip_whitespace_past p 0 (w ++ ['[']) t₁
  rw [bind_of hskip] at h₁
  obtain ⟨taken, r, htake, h₂⟩ := bind_ok.mp h₁
  rcases take_if_cases (by decide) (past_rest ..) htake with ⟨rfl, t', rfl, rfl⟩ | ⟨rfl, rfl, -⟩
  · cases h₂
    exact ⟨w, _, t', 0, by simp, hw, Derives.array_empty hws, rfl, Nat.zero_le _, Or.inl rfl,
      by simp⟩
  · obtain ⟨_, _, hget, h₃⟩ := bind_ok.mp h₂
    cases hget
    obtain ⟨values, s, t', rfl, rfl, hs, hdepth, hnodes, rfl⟩ :=
      array_loop_ok helement [] (past_rest ..) h₃
    exact ⟨w, _, t', nodes_of_list values, by simp, hw, Derives.array (hs.blank_elements hws),
      Nat.add_comm .., hdepth, Or.inr hnodes, by simp⟩

theorem parse_object_ok {element : ParserM StrictJson} {levels : ℕ}
    (helement : ReadsValue element levels) (hp : p.rest = as_bytes t) {v : StrictJson}
    (h : parse_object element p = .ok (v, q)) :
    ∃ w s t' count, t = w ++ (s ++ t') ∧ Blank w ∧ Derives Blank (.value v) s ∧ v.nodes = count + 1 ∧
      v.depth ≤ levels ∧ (count = 0 ∨ p.nodes + count ≤ MAX_JSON_NODES) ∧
      q = p.past count (w ++ s) t' := by
  unfold parse_object at h
  obtain ⟨_, _, hopen, h₁⟩ := bind_ok.mp h
  obtain ⟨w, t₁, rfl, hw, rfl⟩ := consume_ok (by decide) hp hopen
  obtain ⟨ws, t₂, rfl, hws, -, hskip⟩ := skip_whitespace_past p 0 (w ++ ['\x7b']) t₁
  rw [bind_of hskip] at h₁
  obtain ⟨taken, r, htake, h₂⟩ := bind_ok.mp h₁
  rcases take_if_cases (by decide) (past_rest ..) htake with ⟨rfl, t', rfl, rfl⟩ | ⟨rfl, rfl, -⟩
  · cases h₂
    exact ⟨w, _, t', 0, by simp, hw, Derives.object_empty hws, rfl, Nat.zero_le _, Or.inl rfl,
      by simp⟩
  · obtain ⟨_, _, hget, h₃⟩ := bind_ok.mp h₂
    cases hget
    obtain ⟨entries, s, t', rfl, rfl, hs, hnodup, -, hdepth, hnodes, rfl⟩ :=
      object_loop_ok helement [] (past_rest ..) h₃
    refine ⟨w, _, t', nodes_of_entries entries, by simp, hw,
      Derives.object (hs.blank_members hws) hnodup, ?_, ?_, Or.inr hnodes, by simp⟩
    · show 1 + nodes_of_entries (btree_map entries) = _
      rw [nodes_of_entries_perm (btree_map_perm entries), Nat.add_comm]
    · show depth_of_entries (btree_map entries) ≤ _
      rwa [depth_of_entries_perm (btree_map_perm entries)]

/-- The count of a value, and its limit. -/
theorem count_node_eq (p : Parser) : count_node p = if p.nodes + 1 > MAX_JSON_NODES then
    .error (Parser.error { p with nodes := p.nodes + 1 } "JSON node count exceeds limit".toList)
    else .ok ((), { p with nodes := p.nodes + 1 }) := by
  show (if p.nodes + 1 > MAX_JSON_NODES then _ else _ : ParserM Unit) { p with nodes := p.nodes + 1 } = _
  split_ifs with hlimit
  · rfl
  · rfl

/-- A text without white space in front, split behind white space, is not split. -/
theorem blank_eq_nil {w : Str} (hw : Blank w) (h : (w ++ s).head?.any is_ws = false) : w = [] := by
  cases w with
  | nil => rfl
  | cons c w =>
    have hc := hw c List.mem_cons_self
    simp [hc] at h

/-- What a first byte announces, read in front of it. -/
theorem parse_kind_ok {element : ParserM StrictJson} {levels : ℕ} (helement : ReadsValue element levels)
    (hp : p.rest = as_bytes t) (hhead : t.head?.any is_ws = false) {b : UInt8} {v : StrictJson}
    (h : parse_kind element b p = .ok (v, q)) :
    ∃ s t' count, t = s ++ t' ∧ Derives Blank (.value v) s ∧ v.nodes = count + 1 ∧
      v.depth ≤ levels ∧ (count = 0 ∨ p.nodes + count ≤ MAX_JSON_NODES) ∧ q = p.past count s t' := by
  have hliteral : ∀ {e : Str} {v' : StrictJson}, (∀ c ∈ e, c.toNat ≤ 127) →
      Derives Blank (.value v') e → v'.nodes = 1 → v'.depth = 0 →
      (do literal e; return v' : ParserM StrictJson) p = .ok (v, q) →
      ∃ s t' count, t = s ++ t' ∧ Derives Blank (.value v) s ∧ v.nodes = count + 1 ∧
        v.depth ≤ levels ∧ (count = 0 ∨ p.nodes + count ≤ MAX_JSON_NODES) ∧
        q = p.past count s t' := by
    intro e v' he hderives hnodes hdepth h
    obtain ⟨_, _, hlit, h⟩ := bind_ok.mp h
    obtain ⟨t', rfl, rfl⟩ := literal_ok he hp hlit
    cases h
    exact ⟨e, t', 0, rfl, hderives, hnodes, by omega, Or.inl rfl, rfl⟩
  unfold parse_kind at h
  split_ifs at h
  · exact hliteral (by decide) Derives.null rfl rfl h
  · exact hliteral (by decide) Derives.true_text rfl rfl h
  · exact hliteral (by decide) Derives.false_text rfl rfl h
  · obtain ⟨value, _, hstring, h₁⟩ := bind_ok.mp h
    obtain ⟨w, s, t', rfl, hw, hs, rfl⟩ := parse_string_ok hp hstring
    obtain rfl := blank_eq_nil hw hhead
    cases h₁
    exact ⟨s, t', 0, rfl, Derives.string hs, rfl, Nat.zero_le _, Or.inl rfl, rfl⟩
  · obtain ⟨w, s, t', count, rfl, hw, hs, hnodes, hdepth, hlimit, rfl⟩ := parse_array_ok helement hp h
    obtain rfl := blank_eq_nil hw hhead
    exact ⟨s, t', count, rfl, hs, hnodes, hdepth, hlimit, rfl⟩
  · obtain ⟨w, s, t', count, rfl, hw, hs, hnodes, hdepth, hlimit, rfl⟩ :=
      parse_object_ok helement hp h
    obtain rfl := blank_eq_nil hw hhead
    exact ⟨s, t', count, rfl, hs, hnodes, hdepth, hlimit, rfl⟩
  · obtain ⟨number, _, hnumber, h₁⟩ := bind_ok.mp h
    obtain ⟨s, t', rfl, hs, rfl, rfl⟩ := parse_number_ok hp hnumber
    cases h₁
    exact ⟨s, t', 0, rfl, Derives.number hs, rfl, Nat.zero_le _, Or.inl rfl, rfl⟩
  · cases h

/-- **A value, read.** What `parse_value` reads is a value of the grammar that
tolerates white space inside surrogate pairs, within the limits. -/
theorem parse_value_ok (levels : ℕ) : ReadsValue (parse_value levels) levels := by
  -- A value in an array or an object is read with one level less.
  induction levels with
  | zero =>
    intro p q t v _ h
    cases h
  | succ levels ih =>
  intro p q t v hp h
  rw [parse_value] at h
  obtain ⟨_, _, hcount, h₁⟩ := bind_ok.mp h
  rw [count_node_eq] at hcount
  split_ifs at hcount with hlimit
  cases hcount
  obtain ⟨w, t₁, rfl, hw, hhead, hskip⟩ := skip_whitespace_spec
    (p := { p with nodes := p.nodes + 1 }) hp
  rw [bind_of hskip] at h₁
  have hcounted : Parser.past { p with nodes := p.nodes + 1 } 0 w t₁ = p.past 1 w t₁ := rfl
  rw [hcounted] at h₁
  have hpeek : peek (p.past 1 w t₁) = .ok ((as_bytes t₁).head?, p.past 1 w t₁) := rfl
  rw [bind_of hpeek] at h₁
  have hone : p.nodes + 1 ≤ MAX_JSON_NODES := Nat.not_lt.mp hlimit
  cases hfirst : (as_bytes t₁).head? with
  | none =>
    rw [hfirst] at h₁
    cases h₁
  | some b =>
    rw [hfirst] at h₁
    obtain ⟨s, t', count, rfl, hs, hnodes, hdepth, hmore, rfl⟩ :=
      parse_kind_ok ih (past_rest ..) hhead h₁
    refine ⟨w, s, t', rfl, hw, hs, Nat.lt_succ_of_le hdepth, ?_, ?_⟩
    · rw [past_nodes] at hmore
      omega
    · rw [past_past, hnodes, Nat.add_comm]

end LeanBun.Codec
