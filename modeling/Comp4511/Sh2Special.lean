import Comp4511.Sh2Parse

/-!
# Expansion and unquoting

`special` of the second shell puts the process id and the last exit status
into each token and deletes the quotes. The two replacements are passes over
the whole token, and the deletions edit it in place.

`removeChar_eq` says what a deletion does, from the invariant of its loop
(`Squeezed`), and `written_written` that the two passes are one scan, since
a `$` that the first pass leaves is followed by the character it was
followed by before. `special` deletes every quote, also one that was
quoted, so that arguments come back from `parse` and `special` just when
they have none.
-/

namespace Comp4511

open CStr

namespace Sh2

/-! ## The functions -/

/-- The second loop of `replace`. After a match the rest of `old` is
skipped. -/
def written (old new : List Char) : ℕ → List Char → List Char
  | _, [] => []
  | skip + 1, _ :: s => written old new skip s
  | 0, c :: s =>
      if old <+: c :: s then new ++ written old new (old.length - 1) s
      else c :: written old new 0 s

def replace (s old new : List Char) : List Char :=
  if singleQuote ∉ s ∧ old <:+: s then written old new 0 s else s

/-- The variables of `remove_char`. -/
structure Squeeze where
  s : List Char
  x : ℕ
  y : ℕ

def removeTurn (w : Char) (v : Squeeze) : Loop.Turn Squeeze (List Char) :=
  if v.x ≤ strlen v.s then
    match v.s[v.x]? with
    | none => .done v.s
    | some c =>
        if c = nul then .done (v.s.set v.y c)
        else if c = w then .again ⟨v.s, v.x + 1, v.y⟩
        else .again ⟨v.s.set v.y c, v.x + 1, v.y + 1⟩
  else .done v.s

/-- The string that `remove_char` leaves. -/
def removeChar (s : List Char) (w : Char) : List Char :=
  ((Loop.run (removeTurn w) (s.length + 2) ⟨s ++ [nul], 0, 0⟩).map text).getD s

/-- The body of the loop of `special`. -/
def expand (pid stat token : List Char) : List Char :=
  let token := replace token "$$".toList pid
  let token := replace token "$?".toList stat
  let token := removeChar token singleQuote
  removeChar token doubleQuote

/-- `special`, up to the `NULL` of `argv`. -/
def special (pid stat : List Char) : List (Option (List Char)) → List (Option (List Char))
  | some token :: argv => some (expand pid stat token) :: special pid stat argv
  | argv => argv

/-! ## Deletion -/

/-- The part before `x` is squeezed to the characters that stay, with some
old characters after them, and the rest is as it was. -/
structure Squeezed (w : Char) (t tail : List Char) (v : Squeeze) (pre mid post : List Char) :
    Prop where
  split : t = pre ++ post
  buf : v.s = pre.filter (· ≠ w) ++ mid ++ post ++ nul :: tail
  x : v.x = pre.length
  y : v.y = (pre.filter (· ≠ w)).length
  room : v.y + mid.length = v.x
  mid : nul ∉ mid

section Squeeze

variable {w : Char} {t tail : List Char} {v : Squeeze} {pre mid post : List Char}

/-- The length of the string does not change. -/
theorem Squeezed.strlen_eq (h : Squeezed w t tail v pre mid post) (ht : nul ∉ t) :
    strlen v.s = t.length := by
  have hnul : nul ∉ pre.filter (· ≠ w) ++ mid ++ post := by
    rw [h.split] at ht
    simp only [List.mem_append, not_or] at ht ⊢
    exact ⟨⟨fun hmem => ht.1 (List.mem_filter.mp hmem).1, h.mid⟩, ht.2⟩
  have hroom := h.room
  rw [h.x, h.y] at hroom
  rw [strlen, h.buf, text_append_nul hnul, h.split]
  simp only [List.length_append]
  omega

theorem Squeezed.getElem?_eq (h : Squeezed w t tail v pre mid post) :
    v.s[v.x]? = (post ++ nul :: tail).head? := by
  have hlen : (pre.filter (· ≠ w) ++ mid).length = v.x := by
    rw [List.length_append, ← h.y, h.room]
  rw [h.buf, List.append_assoc, ← hlen, getElem?_length_append]

/-- A character that goes. -/
theorem Squeezed.skip (h : Squeezed w t tail v pre mid (w :: post)) (hw : w ≠ nul) :
    Squeezed w t tail ⟨v.s, v.x + 1, v.y⟩ (pre ++ [w]) (mid ++ [w]) post where
  split := by simpa using h.split
  buf := by simpa using h.buf
  x := by simp [h.x]
  y := by simp [h.y]
  room := by simpa [← Nat.add_assoc] using h.room
  mid := by simpa [h.mid] using hw.symm

/-- A character that stays. -/
theorem Squeezed.keep {c : Char} (h : Squeezed w t tail v pre mid (c :: post)) (hc : c ≠ w)
    (hnul : c ≠ nul) :
    ∃ mid', Squeezed w t tail ⟨v.s.set v.y c, v.x + 1, v.y + 1⟩ (pre ++ [c]) mid' post := by
  have hfilter : (pre ++ [c]).filter (· ≠ w) = pre.filter (· ≠ w) ++ [c] := by simp [hc]
  have hroom := h.room
  refine ⟨(mid ++ [c]).tail, by simpa using h.split, ?_, by simp [h.x], by simp [h.y, hc], ?_, ?_⟩
  · rw [h.buf, h.y, hfilter]
    cases mid <;> simp
  · rw [List.length_tail, List.length_append, List.length_singleton]
    show v.y + 1 + _ = v.x + 1
    omega
  · intro hmem
    rcases List.mem_append.mp (List.mem_of_mem_tail hmem) with hin | hin
    · exact h.mid hin
    · exact hnul (List.mem_singleton.mp hin).symm

theorem removeTurn_end (h : Squeezed w t tail v pre mid []) (ht : nul ∉ t) :
    ∃ buf, removeTurn w v = .done buf ∧ text buf = t.filter (· ≠ w) := by
  have hx : v.x ≤ strlen v.s := by
    rw [h.strlen_eq ht, h.x, h.split, List.append_nil]
  have hget : v.s[v.x]? = some nul := by simpa using h.getElem?_eq
  have hpre : t = pre := by simpa using h.split
  have hnul : nul ∉ t.filter (· ≠ w) := fun hmem => ht (List.mem_filter.mp hmem).1
  refine ⟨v.s.set v.y nul, by simp [removeTurn, hx, hget], ?_⟩
  rw [h.buf, h.y, ← hpre]
  cases mid with
  | nil =>
      have hset : (t.filter (· ≠ w) ++ [] ++ [] ++ nul :: tail).set (t.filter (· ≠ w)).length nul
          = t.filter (· ≠ w) ++ nul :: tail := by simp
      rw [hset, text_append_nul hnul]
  | cons m mid =>
      have hset : (t.filter (· ≠ w) ++ m :: mid ++ [] ++ nul :: tail).set
          (t.filter (· ≠ w)).length nul = t.filter (· ≠ w) ++ nul :: (mid ++ nul :: tail) := by simp
      rw [hset, text_append_nul hnul]

theorem removeTurn_again {c : Char} (h : Squeezed w t tail v pre mid (c :: post)) (ht : nul ∉ t)
    (hw : w ≠ nul) :
    ∃ v' pre' mid' post', removeTurn w v = .again v' ∧ v'.x = v.x + 1 ∧
      Squeezed w t tail v' pre' mid' post' := by
  have hc : c ≠ nul := by
    rintro rfl
    exact ht (by simp [h.split])
  have hx : v.x ≤ strlen v.s := by
    rw [h.strlen_eq ht, h.x, h.split, List.length_append]
    exact Nat.le_add_right _ _
  have hget : v.s[v.x]? = some c := by simpa using h.getElem?_eq
  by_cases hcw : c = w
  · subst hcw
    exact ⟨_, _, _, _, by simp [removeTurn, hx, hget, hc], rfl, h.skip hw⟩
  · obtain ⟨mid', hkeep⟩ := h.keep hcw hc
    exact ⟨_, _, _, _, by simp [removeTurn, hx, hget, hc, hcw], rfl, hkeep⟩

/-- `remove_char` deletes the character everywhere. -/
theorem removeChar_eq (s : List Char) (hw : w ≠ nul) :
    removeChar s w = (text s).filter (· ≠ w) := by
  obtain ⟨tail, htail⟩ := exists_text_append s
  have ht := nul_notMem_text s
  have hle : (text s).length ≤ s.length := (List.takeWhile_sublist _).length_le
  have hkeep : ∀ v v', (∃ pre mid post, Squeezed w (text s) tail v pre mid post) →
      removeTurn w v = .again v' →
      (∃ pre mid post, Squeezed w (text s) tail v' pre mid post) ∧
        (text s).length + 1 - v'.x < (text s).length + 1 - v.x := by
    rintro v v' ⟨pre, mid, post, hv⟩ hturn
    cases post with
    | nil =>
        obtain ⟨buf, hend, -⟩ := removeTurn_end hv ht
        cases hend.symm.trans hturn
    | cons c post =>
        obtain ⟨v₁, pre', mid', post', hagain, hx, hv'⟩ := removeTurn_again hv ht hw
        obtain rfl := Loop.Turn.again.inj (hagain.symm.trans hturn)
        have hlen := congrArg List.length hv.split
        rw [List.length_append, List.length_cons, ← hv.x] at hlen
        exact ⟨⟨pre', mid', post', hv'⟩, by omega⟩
  have hstart : Squeezed w (text s) tail ⟨s ++ [nul], 0, 0⟩ [] [] (text s) :=
    ⟨rfl, htail, rfl, rfl, rfl, List.not_mem_nil⟩
  obtain ⟨v, buf, ⟨pre, mid, post, hv⟩, hturn, hrun⟩ := Loop.run_total hkeep
    (n := s.length + 2) ⟨_, _, _, hstart⟩ (by simpa using by omega)
  cases post with
  | nil =>
      obtain ⟨buf', hend, htext⟩ := removeTurn_end hv ht
      obtain rfl := Loop.Turn.done.inj (hend.symm.trans hturn)
      rw [removeChar, hrun]
      exact htext
  | cons c post =>
      obtain ⟨_, _, _, _, hagain, -, -⟩ := removeTurn_again hv ht hw
      cases hagain.symm.trans hturn

end Squeeze

/-! ## One scan -/

/-- The scan that the two passes come to. -/
def scan (pid stat : List Char) : List Char → List Char
  | [] => []
  | '$' :: '$' :: s => pid ++ scan pid stat s
  | '$' :: '?' :: s => stat ++ scan pid stat s
  | c :: s => c :: scan pid stat s

section Written

variable {old new s : List Char} {a b c : Char}

theorem written_of_absent (h : ¬ old <:+: s) : written old new 0 s = s := by
  induction s with
  | nil => rfl
  | cons c s ih =>
      rw [List.infix_cons_iff, not_or] at h
      rw [written, if_neg h.1, ih h.2]

theorem replace_eq_written (h : singleQuote ∉ s) : replace s old new = written old new 0 s := by
  unfold replace
  split
  · rfl
  · next hnot =>
      rw [written_of_absent]
      exact fun hin => hnot ⟨h, hin⟩

theorem written_pair : written [a, b] new 0 (a :: b :: s) = new ++ written [a, b] new 0 s := by
  simp [written]

theorem written_cons (h : c = a → s.head? ≠ some b) :
    written [a, b] new 0 (c :: s) = c :: written [a, b] new 0 s := by
  rw [written, if_neg]
  intro hpre
  obtain ⟨hc, hrest⟩ := List.cons_prefix_cons.mp hpre
  obtain ⟨s', rfl⟩ := hrest
  exact h hc.symm rfl

/-- Text without `a` stays. -/
theorem written_append {u : List Char} (h : a ∉ u) :
    written [a, b] new 0 (u ++ s) = u ++ written [a, b] new 0 s := by
  induction u with
  | nil => rfl
  | cons c u ih =>
      simp only [List.mem_cons, not_or] at h
      rw [List.cons_append, written_cons fun heq => absurd heq.symm h.1, ih h.2]
      rfl

/-- What the first pass begins with, if nothing is replaced there. -/
theorem head?_written (h : s.head? ≠ some a) :
    (written [a, b] new 0 s).head? = s.head? := by
  cases s with
  | nil => rfl
  | cons c s => rw [written_cons fun heq => absurd (congrArg some heq) h, List.head?_cons,
      List.head?_cons]

end Written

/-- One pass after the other is one scan. -/
theorem written_written {pid stat : List Char} (hpid : '$' ∉ pid) (s : List Char) :
    written "$?".toList stat 0 (written "$$".toList pid 0 s) = scan pid stat s := by
  have hold : "$$".toList = ['$', '$'] := rfl
  have hold' : "$?".toList = ['$', '?'] := rfl
  rw [hold, hold']
  induction s using scan.induct with
  | case1 => rfl
  | case2 s ih => rw [written_pair, written_append hpid, ih, scan]
  | case3 s ih =>
      have hfirst : written ['$', '$'] pid 0 ('$' :: '?' :: s)
          = '$' :: '?' :: written ['$', '$'] pid 0 s := by
        rw [written_cons (by simp), written_cons (by simp)]
      rw [hfirst, written_pair, ih, scan]
  | case4 c s hdollar hquestion ih =>
      have hfirst : c = '$' → s.head? ≠ some '$' := by
        rintro rfl hhead
        obtain ⟨s', rfl⟩ := List.head?_eq_some_iff.mp hhead
        exact hdollar s' rfl rfl
      have hsecond : c = '$' → (written ['$', '$'] pid 0 s).head? ≠ some '?' := by
        intro hc hhead
        rw [head?_written (hfirst hc)] at hhead
        obtain ⟨s', rfl⟩ := List.head?_eq_some_iff.mp hhead
        exact hquestion s' hc rfl
      rw [written_cons hfirst, written_cons hsecond, ih, scan]
      · exact hdollar
      · exact hquestion

/-! ## What becomes of a token -/

section Expand

variable {pid stat token : List Char}

theorem mem_written {old new : List Char} {c : Char} {skip : ℕ} {s : List Char}
    (h : c ∈ written old new skip s) : c ∈ new ∨ c ∈ s := by
  induction skip, s using written.induct old with
  | case1 => simp [written] at h
  | case2 skip d s ih =>
      rw [written] at h
      exact (ih h).imp_right (List.mem_cons_of_mem _)
  | case3 d s hpre ih =>
      rw [written, if_pos hpre, List.mem_append] at h
      rcases h with h | h
      · exact .inl h
      · exact (ih h).imp_right (List.mem_cons_of_mem _)
  | case4 d s hpre ih =>
      rw [written, if_neg hpre, List.mem_cons] at h
      rcases h with rfl | h
      · exact .inr (List.mem_cons_self ..)
      · exact (ih h).imp_right (List.mem_cons_of_mem _)

/-- The quotes of a string are all deleted. -/
theorem removeChar_removeChar (s : List Char) :
    removeChar (removeChar s singleQuote) doubleQuote = (text s).filter fun c => !isQuote c := by
  have hnul : nul ∉ (text s).filter (· ≠ singleQuote) :=
    fun hmem => nul_notMem_text s (List.mem_filter.mp hmem).1
  rw [removeChar_eq _ (by decide), removeChar_eq _ (by decide), text_eq_self hnul,
    List.filter_filter]
  refine List.filter_congr fun c _ => ?_
  simp [isQuote, Bool.and_comm]

theorem expand_of_mem (hnul : nul ∉ token) (h : singleQuote ∈ token) :
    expand pid stat token = token.filter fun c => !isQuote c := by
  have hsame : ∀ old new, replace token old new = token := fun old new =>
    if_neg fun hnot => hnot.1 h
  rw [expand, hsame, hsame, removeChar_removeChar, text_eq_self hnul]

theorem expand_of_notMem (hnul : nul ∉ token) (hpid : ∀ c ∈ pid, c.isDigit = true)
    (hstat : ∀ c ∈ stat, c.isDigit = true) (h : singleQuote ∉ token) :
    expand pid stat token = (scan pid stat token).filter (· ≠ doubleQuote) := by
  have hdigit : ∀ c : Char, c.isDigit = true → c ≠ '$' ∧ c ≠ nul ∧ c ≠ singleQuote := by
    intro c hc
    refine ⟨?_, ?_, ?_⟩ <;> rintro rfl <;> exact absurd hc (by decide)
  have hfirst : ∀ c ∈ written "$$".toList pid 0 token, c ≠ nul ∧ c ≠ singleQuote := by
    intro c hc
    rcases mem_written hc with hc | hc
    · exact (hdigit c (hpid c hc)).2
    · exact ⟨fun heq => hnul (heq ▸ hc), fun heq => h (heq ▸ hc)⟩
  have hscan : written "$?".toList stat 0 (written "$$".toList pid 0 token) = scan pid stat token :=
    written_written (fun hmem => (hdigit _ (hpid _ hmem)).1 rfl) token
  have hboth : ∀ c ∈ scan pid stat token, c ≠ nul ∧ c ≠ singleQuote := by
    intro c hc
    rw [← hscan] at hc
    rcases mem_written hc with hc | hc
    · exact (hdigit c (hstat c hc)).2
    · exact hfirst c hc
  rw [expand, replace_eq_written h, replace_eq_written fun hmem => (hfirst _ hmem).2 rfl, hscan,
    removeChar_removeChar, text_eq_self fun hmem => (hboth _ hmem).1 rfl]
  refine List.filter_congr fun c hc => ?_
  simp [isQuote, (hboth c hc).2]

/-- `special` up to the `NULL`. -/
theorem special_append (tokens : List (List Char)) (rest : List (Option (List Char))) :
    special pid stat (tokens.map some ++ none :: rest) =
      (tokens.map fun t => some (expand pid stat t)) ++ none :: rest := by
  induction tokens with
  | nil => rfl
  | cons t tokens ih => simp [special, ih]

/-- `special` puts in place of each token, without a single quote in it,
what one scan makes of it, less the double quotes; and, with one, the token
less all quotes. -/
theorem special_scan (pid stat : List Char) (tokens : List (List Char))
    (rest : List (Option (List Char))) (hnul : ∀ t ∈ tokens, nul ∉ t)
    (hpid : ∀ c ∈ pid, c.isDigit = true) (hstat : ∀ c ∈ stat, c.isDigit = true) :
    special pid stat (tokens.map some ++ none :: rest) =
      (tokens.map fun t => some (if singleQuote ∉ t then
        (scan pid stat t).filter (· ≠ doubleQuote) else t.filter fun c => !isQuote c)) ++
      none :: rest := by
  rw [special_append]
  congr 1
  refine List.map_congr_left fun t ht => ?_
  split
  · next h => rw [expand_of_notMem (hnul t ht) hpid hstat h]
  · next h => rw [expand_of_mem (hnul t ht) (not_not.mp h)]

theorem special_scan_echo :
    special "42".toList "7".toList [some "a$$$?".toList, some "'$$'".toList, none] =
      [some "a427".toList, some "$$".toList, none] := by
  have hspecial := special_scan "42".toList "7".toList ["a$$$?".toList, "'$$'".toList] []
    (by decide) (by simp) (by simp)
  exact hspecial.trans (by decide)

end Expand

/-! ## Quoted arguments -/

section Quoted

/-- An argument in quotes: double ones if there is a single one in it. -/
def wrap (arg : List Char) : List Char :=
  if singleQuote ∈ arg then doubleQuote :: arg ++ [doubleQuote]
  else singleQuote :: arg ++ [singleQuote]

/-- A line of quoted arguments, each but the first with the blanks before
it. -/
def joined (arg : List Char) (more : List (List Char × List Char)) : List Char :=
  wrap arg ++ more.flatMap fun x => x.1 ++ wrap x.2

/-- `parse` and `special` give the arguments back, in the foreground. -/
def RoundTrips (pid stat line : List Char) (args : List (List Char)) : Prop :=
  ∃ p, parse line = some p ∧ p.argv.length ≤ argvLen ∧
    special pid stat p.argv = args.map some ++ [none] ∧ p.background = 0

variable {pid stat arg : List Char} {more : List (List Char × List Char)}

theorem wrap_eq (h : ∀ c ∈ arg, isQuote c = false) :
    wrap arg = singleQuote :: arg ++ [singleQuote] := by
  refine if_neg fun hmem => ?_
  exact absurd (h _ hmem) (by decide)

theorem countP_isQuote (h : ∀ c ∈ arg, isQuote c = false) : arg.countP isQuote = 0 := by
  rw [List.countP_eq_zero]
  intro c hc
  simp [h c hc]

theorem isQuote_singleQuote : isQuote singleQuote = true := by decide

theorem odd_wrap (h : ∀ c ∈ arg, isQuote c = false) : odd (wrap arg) = false := by
  simp [wrap_eq h, odd, countP_isQuote h, isQuote_singleQuote]

/-- Within the quotes nothing is cut. -/
theorem separates_wrap (h : ∀ c ∈ arg, isQuote c = false) :
    ∀ x ∈ (wrap arg).zipIdx, separates (wrap arg) x = false := by
  intro x hx
  obtain ⟨A, B, hAB⟩ := List.append_of_mem hx
  rw [separates_eq hAB]
  cases hblank : blank x.1 with
  | false => rfl
  | true =>
      have hx : x.1 ≠ singleQuote := by
        intro heq
        rw [heq] at hblank
        exact absurd hblank (by decide)
      have hmap := congrArg (List.map Prod.fst) hAB
      rw [map_fst_zipIdx, wrap_eq h, List.map_append, List.map_cons] at hmap
      cases A with
      | nil => exact absurd (List.cons.inj hmap).1.symm hx
      | cons a A =>
          obtain ⟨hfst, hrest⟩ := List.cons.inj hmap
          -- the position is inside the argument, behind the opening quote
          have hpre : A.map Prod.fst ++ [x.1] <+: arg ++ [singleQuote] :=
            ⟨B.map Prod.fst, by simpa using hrest.symm⟩
          have hin : A.map Prod.fst ++ [x.1] <+: arg := by
            refine (List.prefix_concat_iff.mp hpre).resolve_left fun heq => hx ?_
            simpa using congrArg List.getLast? heq
          have hnone := countP_isQuote fun c hc => h c (hin.subset hc)
          have hodd : odd (a.1 :: (A.map Prod.fst ++ [x.1])) = true := by
            simp only [odd, List.countP_cons, hnone, ← hfst, isQuote_singleQuote]
            decide
          simpa using hodd

theorem segments_joined (h : ∀ a ∈ arg :: more.map Prod.snd, ∀ c ∈ a, isQuote c = false)
    (hsep : ∀ x ∈ more, x.1 ≠ [] ∧ ∀ c ∈ x.1, blank c = true) :
    segments (joined arg more) = (arg :: more.map Prod.snd).map wrap := by
  have hne : ∀ a : List Char, wrap a ≠ [] := by
    intro a
    unfold wrap
    split <;> simp
  induction more generalizing arg with
  | nil =>
      have harg := h arg (List.mem_cons_self ..)
      rw [joined, List.flatMap_nil, List.append_nil, segments_word (hne arg) (separates_wrap harg)]
      rfl
  | cons x more ih =>
      have harg := h arg (List.mem_cons_self ..)
      obtain ⟨hnil, hblank⟩ := hsep x (List.mem_cons_self ..)
      have hline : joined arg (x :: more) = wrap arg ++ x.1 ++ joined x.2 more := by
        simp [joined]
      have hrest : segments (joined x.2 more) = (x.2 :: more.map Prod.snd).map wrap :=
        ih (fun a ha => h a (List.mem_cons_of_mem _ ha))
          (fun y hy => hsep y (List.mem_cons_of_mem _ hy))
      rw [hline, segments_block (hne arg) (separates_wrap harg) (odd_wrap harg) hnil hblank, hrest]
      rfl

theorem wrap_ends (a : List Char) :
    ∃ c, (wrap a).head? = some c ∧ (wrap a).getLast? = some c ∧ blank c = false := by
  unfold wrap
  split
  · exact ⟨doubleQuote, rfl, List.getLast?_concat, by decide⟩
  · exact ⟨singleQuote, rfl, List.getLast?_concat, by decide⟩

theorem trimmed_joined (arg : List Char) (more : List (List Char × List Char)) :
    Trimmed (joined arg more) := by
  obtain ⟨c, hhead, hlast, hc⟩ := wrap_ends arg
  constructor
  · exact ⟨c, by simp [joined, List.head?_append, hhead], hc⟩
  · rcases List.eq_nil_or_concat more with rfl | ⟨more, x, rfl⟩
    · exact ⟨c, by simp [joined, hlast], hc⟩
    · obtain ⟨d, -, hlast', hd⟩ := wrap_ends x.2
      exact ⟨d, by simp [joined, List.getLast?_append, hlast'], hd⟩

theorem nul_notMem_joined (hnul : ∀ a ∈ arg :: more.map Prod.snd, nul ∉ a)
    (hsep : ∀ x ∈ more, x.1 ≠ [] ∧ ∀ c ∈ x.1, blank c = true) : nul ∉ joined arg more := by
  have hwrap : ∀ a, nul ∉ a → nul ∉ wrap a := by
    intro a ha
    unfold wrap
    split <;> simp [ha] <;> decide
  rw [List.forall_mem_cons, List.forall_mem_map] at hnul
  rw [joined, List.mem_append, List.mem_flatMap]
  rintro (hmem | ⟨x, hx, hmem⟩)
  · exact hwrap arg hnul.1 hmem
  · rcases List.mem_append.mp hmem with hmem | hmem
    · exact absurd ((hsep x hx).2 _ hmem) (by decide)
    · exact hwrap x.2 (hnul.2 x hx) hmem

/-- Without quotes in them, the arguments come back. -/
theorem expand_wrap (h : ∀ c ∈ arg, isQuote c = false) (hnul : nul ∉ arg) :
    expand pid stat (wrap arg) = arg := by
  have hmem : nul ∉ wrap arg := by
    rw [wrap_eq h]
    simp [hnul]
    decide
  have hself : arg.filter (fun c => !isQuote c) = arg := by
    refine List.filter_eq_self.mpr fun c hc => ?_
    simp [h c hc]
  rw [expand_of_mem hmem (by simp [wrap_eq h]), wrap_eq h]
  simp [hself, isQuote_singleQuote]

/-- No quote is left in what `special` returns. -/
theorem isQuote_of_mem_special {argv : List (List Char)} {t : List Char}
    (h : some t ∈ special pid stat (argv.map some ++ [none])) : ∀ c ∈ t, isQuote c = false := by
  rw [special_append] at h
  simp only [List.mem_append, List.mem_map, Option.some.injEq, List.mem_singleton, reduceCtorEq,
    or_false] at h
  obtain ⟨token, -, rfl⟩ := h
  intro c hc
  rw [expand, removeChar_removeChar, List.mem_filter] at hc
  simpa using hc.2

theorem parse_argv {line : List Char} {p : Parsed} (h : parse line = some p) :
    ∃ argv : List (List Char), p.argv = argv.map some ++ [none] := by
  unfold parse at h
  split at h
  · next argv _ =>
      unfold finish at h
      split at h
      · exact nomatch h
      · split at h
        · exact ⟨argv.dropLast, by rw [← Option.some.inj h]⟩
        · exact ⟨argv, by rw [← Option.some.inj h]⟩
  · exact nomatch h

/-- Arguments put in quotes come back from `parse` and `special` just when
there is no quote in any of them. -/
theorem round_trip_iff (pid stat arg : List Char) (more : List (List Char × List Char))
    (hnul : ∀ a ∈ arg :: more.map Prod.snd, nul ∉ a)
    (hsep : ∀ x ∈ more, x.1 ≠ [] ∧ ∀ c ∈ x.1, blank c = true)
    (hfew : (arg :: more.map Prod.snd).length ≤ 127) (hlen : (joined arg more).length ≤ 1022) :
    RoundTrips pid stat (joined arg more) (arg :: more.map Prod.snd) ↔
      ∀ a ∈ arg :: more.map Prod.snd, ∀ c ∈ a, isQuote c = false := by
  constructor
  · rintro ⟨p, hparse, -, hspecial, -⟩ a ha
    obtain ⟨argv, hargv⟩ := parse_argv hparse
    have hmem : some a ∈ special pid stat (argv.map some ++ [none]) := by
      rw [← hargv, hspecial]
      exact List.mem_append_left _ (List.mem_map_of_mem ha)
    exact isQuote_of_mem_special hmem
  · intro h
    have hsegments := segments_joined h hsep
    have hamp : (segments (joined arg more)).getLast? ≠ some "&".toList := by
      rw [hsegments]
      intro hlast
      obtain ⟨a, ha, heq⟩ := List.mem_map.mp (List.mem_of_getLast? hlast)
      rw [wrap_eq (h a ha)] at heq
      exact nomatch heq
    have hparse := parse_eq (trimmed_joined arg more) (by unfold maxCmdlineLen; omega)
      (nul_notMem_joined hnul hsep)
    rw [finish_eq (segments_ne_nil (trimmed_joined arg more)), if_neg hamp, hsegments] at hparse
    refine ⟨_, hparse, ?_, ?_, rfl⟩
    · simp only [List.length_append, List.length_map, List.length_singleton, argvLen]
      omega
    · rw [special_append, List.map_map]
      congr 1
      refine List.map_congr_left fun a ha => ?_
      exact congrArg some (expand_wrap (h a ha) (hnul a ha))

theorem round_trip_iff_blanks : RoundTrips "42".toList "0".toList
    (joined "a b".toList [(" ".toList, []), ("\t ".toList, "&".toList)])
    ["a b".toList, [], "&".toList] := by
  refine (round_trip_iff "42".toList "0".toList "a b".toList
    [(" ".toList, []), ("\t ".toList, "&".toList)] ?_ ?_ ?_ ?_).mpr ?_
  · decide
  · simp [blank]
  · decide
  · decide
  · simp [isQuote, singleQuote, doubleQuote]

/-- A single quote between double quotes does not come back. -/
theorem quoted_quote_lost :
    (parse (joined "it's".toList [])).map (fun p => special "42".toList "0".toList p.argv)
      = some [some "its".toList, none] ∧
    ¬ RoundTrips "42".toList "0".toList (joined "it's".toList []) ["it's".toList] := by
  have hits : (parse (joined "it's".toList [])).map
      (fun p => special "42".toList "0".toList p.argv) = some [some "its".toList, none] := by
    decide
  refine ⟨hits, ?_⟩
  rintro ⟨p, hparse, -, hspecial, -⟩
  rw [hparse, Option.map_some, hspecial] at hits
  exact absurd hits (by decide)

end Quoted

end Sh2

end Comp4511
