import TransportSystem.Svg

namespace TransportSystem.Svg.Text

/-- `data.find(symvol, pos)` -/
def find (data : Str) (symvol : Char) (pos : Nat) : Option Nat :=
  ((data.drop pos).findIdx? (· = symvol)).map (· + pos)

/-- The inner loop of `SetData`, after a hit at `pos` or at its start. -/
def replaceLoop (symvol : Char) (replacement : Str) : Nat → Str → Nat → Except Failure Str
  | 0, _, _ => .error .diverges
  | fuel + 1, data, pos =>
      match find data symvol (pos + 1) with
      | none => .ok data
      | some pos =>
          let afterPos := replacement ++ data.drop (pos + 1)
          replaceLoop symvol replacement fuel (data.take pos ++ afterPos) pos

/-- The loops of `SetData`, each with enough turns for all characters. -/
def setDataLoops (data : Str) : Except Failure Str :=
  charactersToReplace.foldlM (fun data e => replaceLoop e.1 e.2 (data.length + 1) data 0) data

section Loops

variable {symvol : Char}

theorem find_append {done rest : Str} {pos : Nat} (hdone : done.length = pos + 1) :
    find (done ++ rest) symvol (pos + 1) =
      (rest.findIdx? (· = symvol)).map (· + (pos + 1)) := by
  rw [find, List.drop_left' hdone]

theorem flatMap_replace_of_not_mem {replacement rest : Str} (h : symvol ∉ rest) :
    (rest.flatMap fun c => if c = symvol then replacement else [c]) = rest := by
  induction rest with
  | nil => rfl
  | cons c rest ih =>
      have hc : c ≠ symvol := fun heq => h (by simp [heq])
      have hrest : symvol ∉ rest := fun hmem => h (by simp [hmem])
      simp [hc, ih hrest]

theorem findIdx?_of_not_mem {rest : Str} (h : symvol ∉ rest) :
    rest.findIdx? (· = symvol) = none := by
  rw [List.findIdx?_eq_none_iff]
  intro c hc
  simpa using fun heq : c = symvol => h (heq ▸ hc)

theorem findIdx?_of_split {before : Str} (h : symvol ∉ before) (after : Str) :
    (before ++ symvol :: after).findIdx? (· = symvol) = some before.length := by
  simp [List.findIdx?_append, findIdx?_of_not_mem h, List.findIdx?_cons]

/-- Behind `done` the loop replaces every hit. Each turn leaves fewer hits, since
what is put in has none behind its first character. -/
theorem replaceLoop_spec {first : Char} {tail : Str} (htail : symvol ∉ tail) (fuel : Nat)
    (done rest : Str) (pos : Nat) (hdone : done.length = pos + 1)
    (hfuel : rest.count symvol < fuel) :
    replaceLoop symvol (first :: tail) fuel (done ++ rest) pos =
      .ok (done ++ rest.flatMap fun c => if c = symvol then first :: tail else [c]) := by
  induction fuel generalizing done rest pos with
  | zero => omega
  | succ fuel ih =>
      rw [replaceLoop, find_append hdone]
      by_cases hmem : symvol ∈ rest
      · obtain ⟨before, after, rfl, hbefore⟩ := List.eq_append_cons_of_mem hmem
        have hlength : (done ++ before).length = before.length + (pos + 1) := by
          rw [List.length_append, hdone, Nat.add_comm]
        have htake : (done ++ (before ++ symvol :: after)).take (before.length + (pos + 1)) =
            done ++ before := by
          rw [← List.append_assoc, List.take_left' hlength]
        have hdrop : (done ++ (before ++ symvol :: after)).drop (before.length + (pos + 1) + 1) =
            after := by
          rw [← List.append_assoc, ← List.drop_drop, List.drop_left' hlength]
          rfl
        have hcount : (tail ++ after).count symvol < fuel := by
          simp only [List.count_append, List.count_cons_self, List.count_eq_zero_of_not_mem htail,
            List.count_eq_zero_of_not_mem hbefore] at hfuel ⊢
          omega
        have hnext := ih (done ++ before ++ [first]) (tail ++ after) (before.length + (pos + 1))
          (by rw [List.length_append, hlength]; rfl) hcount
        simp only [findIdx?_of_split hbefore, Option.map_some, htake, hdrop]
        simpa [flatMap_replace_of_not_mem, htail, hbefore] using hnext
      · simp [findIdx?_of_not_mem hmem, flatMap_replace_of_not_mem hmem]

theorem replaceLoop_eq {first : Char} {tail : Str} (htail : symvol ∉ tail) (data : Str) :
    replaceLoop symvol (first :: tail) (data.length + 1) data 0 =
      .ok (replaceCharacter data symvol (first :: tail)) := by
  cases data with
  | nil => rfl
  | cons c rest =>
      refine replaceLoop_spec htail _ [c] rest 0 rfl ?_
      have hle := rest.count_le_length (a := symvol)
      simp only [List.length_cons]
      omega

theorem setDataLoops_eq (text : Text) (data : Str) :
    setDataLoops data = .ok (setData text data).data := by
  have htable : ∀ e ∈ charactersToReplace, ∃ first tail, e.2 = first :: tail ∧ e.1 ∉ tail := by
    simp [charactersToReplace]
  have hloop : ∀ e ∈ charactersToReplace, ∀ data,
      replaceLoop e.1 e.2 (data.length + 1) data 0 = .ok (replaceCharacter data e.1 e.2) := by
    intro e he data
    obtain ⟨first, tail, hreplacement, htail⟩ := htable e he
    rw [hreplacement]
    exact replaceLoop_eq htail data
  exact foldlM_eq_ok hloop data

end Loops

/-- The entity for a character, and other characters as they are. -/
def escapeChar (c : Char) : Str :=
  match charactersToReplace.find? fun e => e.1 = c with
  | some e => e.2
  | none => [c]

/-- Every special character replaced by its entity. -/
def escape (s : Str) : Str := s.flatMap escapeChar

def Special (c : Char) : Prop := c ∈ charactersToReplace.map Prod.fst

instance : DecidablePred Special := fun _ => inferInstanceAs (Decidable (_ ∈ _))

/-- Read a text with entities, of which the next characters are left out. -/
def unescapeAfter : Nat → Str → Str
  | _, [] => []
  | skip + 1, _ :: rest => unescapeAfter skip rest
  | 0, c :: rest =>
      match charactersToReplace.find? fun e => e.2.isPrefixOf (c :: rest) with
      | some e => e.1 :: unescapeAfter (e.2.length - 1) rest
      | none => c :: unescapeAfter 0 rest

/-- The text in which every entity stands for its character. -/
def unescape (data : Str) : Str := unescapeAfter 0 data

/-- No quote, apostrophe or angle bracket. -/
def NoRaw (data : Str) : Prop := ∀ c ∈ data, Special c → c = '&'

/-- Every ampersand begins an entity. -/
def OnlyEntities (data : Str) : Prop :=
  ∀ before after, data = before ++ '&' :: after →
    ∃ e ∈ charactersToReplace, e.2 <+: '&' :: after

theorem escapeChar_of_not_special {c : Char} (h : ¬ Special c) : escapeChar c = [c] := by
  have hnone : charactersToReplace.find? (fun e => e.1 = c) = none := by
    rw [List.find?_eq_none]
    intro e he
    simpa using fun heq : e.1 = c => h (heq ▸ List.mem_map_of_mem he)
  rw [escapeChar, hnone]

theorem exists_entity {c : Char} (h : Special c) :
    ∃ tail, (c, '&' :: tail) ∈ charactersToReplace ∧ escapeChar c = '&' :: tail ∧ tail ≠ [] ∧
      ∀ c' ∈ tail, ¬ Special c' := by
  have hplain : charactersToReplace.all
      (fun e => e.2.tail.all fun c' => decide (¬ Special c')) = true := by decide
  have hentity : ∃ tail, (c, '&' :: tail) ∈ charactersToReplace ∧ escapeChar c = '&' :: tail ∧
      tail ≠ [] := by
    simp only [Special, charactersToReplace, List.map_cons, List.map_nil, List.mem_cons,
      List.not_mem_nil, or_false] at h
    rcases h with rfl | rfl | rfl | rfl | rfl
    all_goals exact ⟨_, by decide, rfl, by decide⟩
  obtain ⟨tail, hmem, heq, hne⟩ := hentity
  refine ⟨tail, hmem, heq, hne, fun c' hc' => of_decide_eq_true ?_⟩
  exact List.all_eq_true.mp (List.all_eq_true.mp hplain _ hmem) c' hc'

theorem length_escapeChar {c : Char} (h : Special c) : 1 < (escapeChar c).length := by
  obtain ⟨tail, -, heq, htail, -⟩ := exists_entity h
  rw [heq, List.length_cons]
  have := List.length_pos_iff.mpr htail
  omega

theorem noRaw_escape (s : Str) : NoRaw (escape s) := by
  intro c hc hspecial
  obtain ⟨c₀, -, hc⟩ := List.mem_flatMap.mp hc
  by_cases h₀ : Special c₀
  · obtain ⟨tail, -, heq, -, htail⟩ := exists_entity h₀
    rw [heq] at hc
    rcases List.mem_cons.mp hc with rfl | hc
    · rfl
    · exact absurd hspecial (htail c hc)
  · rw [escapeChar_of_not_special h₀] at hc
    cases List.mem_singleton.mp hc
    exact absurd hspecial h₀

/-- Behind characters other than ampersands the ampersands stay where they are. -/
theorem onlyEntities_append {tail data : Str} (htail : '&' ∉ tail) (h : OnlyEntities data) :
    OnlyEntities (tail ++ data) := by
  intro before after heq
  rcases List.append_eq_append_iff.mp heq with ⟨rest, rfl, hrest⟩ | ⟨rest, rfl, hrest⟩
  · exact h rest after hrest
  · cases rest with
    | nil => exact h [] after (by simpa using hrest.symm)
    | cons c rest =>
        cases hrest
        exact absurd (by simp) htail

theorem onlyEntities_escape (s : Str) : OnlyEntities (escape s) := by
  induction s with
  | nil =>
      intro before after heq
      simp [escape] at heq
  | cons c s ih =>
      rw [escape, List.flatMap_cons]
      by_cases h : Special c
      · obtain ⟨tail, hmem, heq, -, htail⟩ := exists_entity h
        have htail' : '&' ∉ tail := fun hamp => htail '&' hamp (by decide)
        rw [heq, List.cons_append]
        intro before after hsplit
        cases before with
        | nil =>
            cases hsplit
            exact ⟨_, hmem, List.prefix_append ('&' :: tail) _⟩
        | cons first before =>
            rw [List.cons_append] at hsplit
            exact onlyEntities_append htail' ih before after (List.cons.inj hsplit).2
      · rw [escapeChar_of_not_special h]
        refine onlyEntities_append (fun hamp => ?_) ih
        exact h (List.mem_singleton.mp hamp ▸ by decide)

theorem unescapeAfter_append (tail data : Str) :
    unescapeAfter tail.length (tail ++ data) = unescape data := by
  induction tail with
  | nil => rfl
  | cons c tail ih => exact ih

theorem unescape_entity {c : Char} {tail : Str} (h : (c, '&' :: tail) ∈ charactersToReplace)
    (data : Str) : unescape ('&' :: (tail ++ data)) = c :: unescape data := by
  rw [← unescapeAfter_append tail data]
  simp only [charactersToReplace, List.mem_cons, List.not_mem_nil, or_false] at h
  rcases h with h | h | h | h | h
  all_goals
    cases h
    rfl

theorem unescape_cons {c : Char} (h : c ≠ '&') (data : Str) :
    unescape (c :: data) = c :: unescape data := by
  have hnone : charactersToReplace.find? (fun e => e.2.isPrefixOf (c :: data)) = none := by
    rw [List.find?_eq_none]
    simp [charactersToReplace, Ne.symm h]
  rw [unescape, unescapeAfter, hnone]
  rfl

theorem unescape_escape (s : Str) : unescape (escape s) = s := by
  induction s with
  | nil => rfl
  | cons c s ih =>
      rw [escape, List.flatMap_cons]
      by_cases h : Special c
      · obtain ⟨tail, hmem, heq, -, -⟩ := exists_entity h
        rw [heq, List.cons_append, unescape_entity hmem]
        exact congrArg _ ih
      · have hc : c ≠ '&' := fun heq => h (heq ▸ by decide)
        rw [escapeChar_of_not_special h, List.singleton_append, unescape_cons hc]
        exact congrArg _ ih

/-- All replacements, at every position. -/
def replaceEverywhere (table : List (Char × Str)) (data : Str) : Str :=
  table.foldl (fun data e => data.flatMap fun c => if c = e.1 then e.2 else [c]) data

theorem foldl_replaceCharacter (table : List (Char × Str)) (first : Char) (rest : Str) :
    table.foldl (fun data e => replaceCharacter data e.1 e.2) (first :: rest) =
      first :: replaceEverywhere table rest := by
  induction table generalizing rest with
  | nil => rfl
  | cons e table ih => exact ih _

theorem replaceEverywhere_eq_flatMap (table : List (Char × Str)) (data : Str) :
    replaceEverywhere table data = data.flatMap fun c => replaceEverywhere table [c] := by
  induction table generalizing data with
  | nil => simp [replaceEverywhere]
  | cons e table ih =>
      have hcons : ∀ data, replaceEverywhere (e :: table) data =
          replaceEverywhere table (data.flatMap fun c => if c = e.1 then e.2 else [c]) :=
        fun _ => rfl
      simp only [hcons]
      rw [ih, List.flatMap_assoc]
      refine List.flatMap_congr fun c _ => ?_
      rw [List.flatMap_singleton, ih]

/-- No entity holds a character that a later pass replaces. -/
theorem replaceEverywhere_singleton (c : Char) :
    replaceEverywhere charactersToReplace [c] = escapeChar c := by
  by_cases h : Special c
  · simp only [Special, charactersToReplace, List.map_cons, List.map_nil, List.mem_cons,
      List.not_mem_nil, or_false] at h
    rcases h with rfl | rfl | rfl | rfl | rfl <;> rfl
  · rw [escapeChar_of_not_special h]
    simp only [Special, charactersToReplace, List.map_cons, List.map_nil, List.mem_cons,
      List.not_mem_nil, or_false, not_or] at h
    simp [replaceEverywhere, charactersToReplace, h]

/-- `SetData` keeps the first character and escapes the others. -/
theorem setData_cons (text : Text) (first : Char) (rest : Str) :
    (setData text (first :: rest)).data = first :: escape rest := by
  have hdata : (setData text (first :: rest)).data =
      charactersToReplace.foldl (fun data e => replaceCharacter data e.1 e.2) (first :: rest) := rfl
  rw [hdata, foldl_replaceCharacter, replaceEverywhere_eq_flatMap]
  simp only [replaceEverywhere_singleton]
  rfl

/-- The data is the escaped text, and can be read as such. -/
structure Escaped (s data : Str) : Prop where
  eq : data = escape s
  noRaw : NoRaw data
  onlyEntities : OnlyEntities data
  unescape : unescape data = s

theorem escaped_escape (s : Str) : Escaped s (escape s) :=
  ⟨rfl, noRaw_escape s, onlyEntities_escape s, unescape_escape s⟩

/-- `SetData` escapes a text exactly if its first character needs no escape. -/
theorem setData_escaped_iff (text : Text) (s : Str) :
    ∃ data, setDataLoops s = .ok data ∧ (setData text s).data = data ∧
      (Escaped s data ↔ ∀ c ∈ s.head?, ¬ Special c) := by
  refine ⟨_, setDataLoops_eq text s, rfl, ?_⟩
  cases s with
  | nil => exact iff_of_true (escaped_escape []) (by simp)
  | cons first rest =>
      rw [setData_cons]
      have hescape : escape (first :: rest) = escapeChar first ++ escape rest := by
        rw [escape, List.flatMap_cons, escape]
      by_cases h : Special first
      · refine iff_of_false (fun hesc => ?_) (by simpa using h)
        -- the entity is longer than the character
        have hlength := congrArg List.length (hesc.eq.trans hescape)
        have hlong := length_escapeChar h
        simp only [List.length_cons, List.length_append] at hlength
        omega
      · refine iff_of_true ?_ (by simpa using h)
        have hfirst : first :: escape rest = escape (first :: rest) := by
          rw [hescape, escapeChar_of_not_special h, List.singleton_append]
        rw [hfirst]
        exact escaped_escape _

/-- A text that begins with an apostrophe keeps it. -/
theorem not_escaped_apostrophe :
    setDataLoops ['\'', 'a'] = .ok ['\'', 'a'] ∧ ¬ Escaped ['\'', 'a'] ['\'', 'a'] := by
  refine ⟨by decide +kernel, fun h => ?_⟩
  exact absurd (h.noRaw '\'' (by decide) (by decide)) (by decide)

end TransportSystem.Svg.Text
