import Mathlib.Tactic.Common

/-
  A text as the lines a buffer of limited size gets of it.

  A line ends behind a newline or when the buffer is full; the
  rest of a line that does not fit is a line of its own.

  Key definitions include:
    * `TextLines.chunks`
    * `TextLines.chomp`
    * `TextLines.tokens`
    * `TextLines.splitLast`

  The rules used on printed lines are:
    * `TextLines.chunks_line`
    * `TextLines.chunks_full`
    * `TextLines.chunks_flatten`
    * `TextLines.tokens_delimited`
    * `TextLines.splitLast_some`, `TextLines.splitLast_none`
-/

------------------------------------------------------------
-- Lines
------------------------------------------------------------

namespace TextLines

/- The lines behind what has been read of the current one. -/
def chunksFrom
    (room : Nat) :
    List Char → List Char → List (List Char)
| line, [] => if line = [] then [] else [line]
| line, c :: cs =>
    if c = '\n' ∨ line.length + 1 = room then
      (line ++ [c]) :: chunksFrom room [] cs
    else chunksFrom room (line ++ [c]) cs

/-
  What `fgets(buffer, room + 1, f)` stores, call after call,
  until it returns NULL.
-/
def chunks
    (room : Nat)
    (text : List Char) : List (List Char) :=
  chunksFrom room [] text

/- A line without the newline at its end. -/
def chomp (line : List Char) : List Char :=
  if line.getLast? = some '\n' then line.dropLast else line

/- A line that is not yet full goes on. -/
theorem chunksFrom_append
    {room : Nat}
    {more : List Char}
    (hPlain : '\n' ∉ more)
    {line : List Char}
    (hRoom : line.length + more.length < room)
    (cs : List Char) :
    chunksFrom room line (more ++ cs) =
      chunksFrom room (line ++ more) cs := by
  induction more generalizing line with
  | nil => simp
  | cons c more ih =>
      simp only [List.length_cons] at hRoom
      have hNot : ¬ (c = '\n' ∨ line.length + 1 = room) := by
        rintro (hNewline | hFull)
        · exact hPlain (hNewline ▸ List.mem_cons_self)
        · omega
      rw [List.cons_append, chunksFrom, if_neg hNot,
        ih (fun hMem => hPlain (List.mem_cons_of_mem _ hMem))
          (by simp only [List.length_append,
                List.length_singleton]; omega),
        List.append_assoc, List.singleton_append]

/- A line that fits is one line, its newline with it. -/
theorem chunks_line
    {room : Nat}
    {line : List Char}
    (hPlain : '\n' ∉ line)
    (hRoom : line.length < room)
    (cs : List Char) :
    chunks room (line ++ '\n' :: cs) =
      (line ++ ['\n']) :: chunks room cs := by
  rw [chunks, chunksFrom_append hPlain (by simpa using hRoom),
    List.nil_append, chunksFrom, if_pos (Or.inl rfl), chunks]

/- As many characters as there is room for are a line. -/
theorem chunks_full
    {room : Nat}
    {line : List Char}
    (hPlain : '\n' ∉ line)
    (hSome : line ≠ [])
    (hRoom : line.length = room)
    (cs : List Char) :
    chunks room (line ++ cs) = line :: chunks room cs := by
  rcases List.eq_nil_or_concat line with hNil | ⟨most, c, hLine⟩
  · exact absurd hNil hSome
  · subst hLine
    rw [List.concat_eq_append] at hPlain hRoom ⊢
    simp only [List.length_append, List.length_singleton]
      at hRoom
    rw [chunks, List.append_assoc,
      chunksFrom_append
        (fun hMem =>
          hPlain (List.mem_append.mpr (Or.inl hMem)))
        (by simp only [List.length_nil]; omega),
      List.nil_append, List.singleton_append, chunksFrom,
      if_pos (Or.inr hRoom), chunks]

theorem chomp_line
    (line : List Char) :
    chomp (line ++ ['\n']) = line := by
  simp [chomp]

theorem chomp_plain
    {line : List Char}
    (hPlain : '\n' ∉ line) :
    chomp line = line := by
  rw [chomp, if_neg]
  intro hLast
  exact hPlain (List.mem_of_getLast? hLast)

/- The lines are the text, and none is empty. -/
theorem chunksFrom_flatten
    (room : Nat)
    (line text : List Char) :
    (chunksFrom room line text).flatten = line ++ text ∧
      ∀ chunk ∈ chunksFrom room line text, chunk ≠ [] := by
  induction text generalizing line with
  | nil =>
      rw [chunksFrom]
      by_cases hNone : line = []
      · subst hNone
        simp
      · rw [if_neg hNone]
        simpa using hNone
  | cons c cs ih =>
      rw [chunksFrom]
      by_cases hEnds : c = '\n' ∨ line.length + 1 = room
      · rw [if_pos hEnds]
        rcases ih [] with ⟨hText, hSome⟩
        refine ⟨?_, ?_⟩
        · rw [List.flatten_cons, hText]
          simp
        · intro chunk hMem
          rcases List.mem_cons.mp hMem with hHere | hLater
          · rw [hHere]
            simp
          · exact hSome chunk hLater
      · rw [if_neg hEnds]
        rcases ih (line ++ [c]) with ⟨hText, hSome⟩
        exact ⟨by rw [hText]; simp, hSome⟩

theorem chunks_flatten
    (room : Nat)
    (text : List Char) :
    (chunks room text).flatten = text :=
  (chunksFrom_flatten room [] text).1

------------------------------------------------------------
-- Tokens
------------------------------------------------------------

/- The tokens behind what has been read of the current one. -/
def tokensFrom
    (delimits : Char → Bool) :
    List Char → List Char → List (List Char)
| token, [] => if token = [] then [] else [token]
| token, c :: cs =>
    if delimits c then
      if token = [] then tokensFrom delimits [] cs
      else token :: tokensFrom delimits [] cs
    else tokensFrom delimits (token ++ [c]) cs

/- What `strtok` returns, call after call, until NULL. -/
def tokens
    (delimits : Char → Bool)
    (text : List Char) : List (List Char) :=
  tokensFrom delimits [] text

section Tokens

variable {delimits : Char → Bool}

theorem tokensFrom_append
    {more : List Char}
    (hPlain : ∀ c ∈ more, delimits c = false)
    (token cs : List Char) :
    tokensFrom delimits token (more ++ cs) =
      tokensFrom delimits (token ++ more) cs := by
  induction more generalizing token with
  | nil => simp
  | cons c more ih =>
      have hHere := hPlain c List.mem_cons_self
      rw [List.cons_append, tokensFrom,
        if_neg (by simp [hHere]),
        ih fun c' hMem =>
          hPlain c' (List.mem_cons_of_mem _ hMem),
        List.append_assoc, List.singleton_append]

/- A token in front of a delimiter. -/
theorem tokens_delimited
    {token : List Char}
    (hPlain : ∀ c ∈ token, delimits c = false)
    (hSome : token ≠ [])
    {c : Char}
    (hDelimiter : delimits c = true)
    (cs : List Char) :
    tokens delimits (token ++ c :: cs) =
      token :: tokens delimits cs := by
  rw [tokens, tokensFrom_append hPlain, List.nil_append,
    tokensFrom, if_pos hDelimiter, if_neg hSome, tokens]

theorem tokens_last
    {token : List Char}
    (hPlain : ∀ c ∈ token, delimits c = false)
    (hSome : token ≠ []) :
    tokens delimits token = [token] := by
  have hWhole := tokensFrom_append hPlain [] []
  rw [List.append_nil, List.nil_append] at hWhole
  rw [tokens, hWhole, tokensFrom, if_neg hSome]

end Tokens

------------------------------------------------------------
-- The Last of a Character
------------------------------------------------------------

/- What stands before and behind `strrchr(text, c)`. -/
def splitLast
    (c : Char) :
    List Char → Option (List Char × List Char)
| [] => none
| d :: cs =>
    match splitLast c cs with
    | some (before, behind) => some (d :: before, behind)
    | none => if d = c then some ([], cs) else none

theorem splitLast_none
    {c : Char}
    {cs : List Char} :
    splitLast c cs = none ↔ c ∉ cs := by
  induction cs with
  | nil => simp [splitLast]
  | cons d cs ih =>
      rw [splitLast, List.mem_cons, not_or, ← ih]
      cases splitLast c cs with
      | none =>
          by_cases hHere : d = c
          · simp [hHere]
          · simp [hHere, Ne.symm hHere]
      | some parts => simp

theorem splitLast_some
    {c : Char}
    {cs before behind : List Char} :
    splitLast c cs = some (before, behind) ↔
      cs = before ++ c :: behind ∧ c ∉ behind := by
  induction cs generalizing before behind with
  | nil => simp [splitLast]
  | cons d cs ih =>
      rw [splitLast]
      cases hRest : splitLast c cs with
      | none =>
          have hNot := splitLast_none.mp hRest
          by_cases hHere : d = c
          · simp only [if_pos hHere, Option.some.injEq,
              Prod.mk.injEq]
            constructor
            · rintro ⟨hBefore, hBehind⟩
              rw [← hBefore, ← hBehind, hHere]
              exact ⟨rfl, hNot⟩
            · rintro ⟨hText, _hLast⟩
              cases before with
              | nil => exact ⟨rfl, (List.cons.inj hText).2⟩
              | cons e before =>
                  have hMem : c ∈ cs := by
                    rw [(List.cons.inj hText).2]
                    simp
                  exact absurd hMem hNot
          · simp only [if_neg hHere, reduceCtorEq, false_iff]
            rintro ⟨hText, _hLast⟩
            cases before with
            | nil => exact hHere (List.cons.inj hText).1
            | cons e before =>
                have hMem : c ∈ cs := by
                  rw [(List.cons.inj hText).2]
                  simp
                exact absurd hMem hNot
      | some parts =>
          rcases parts with ⟨first, last⟩
          rcases ih.mp hRest with ⟨hText, hLast⟩
          simp only [Option.some.injEq, Prod.mk.injEq]
          constructor
          · rintro ⟨hBefore, hBehind⟩
            rw [← hBefore, ← hBehind, hText]
            exact ⟨rfl, hLast⟩
          · rintro ⟨hWhole, hNone⟩
            cases before with
            | nil =>
                have hMem : c ∈ behind := by
                  rw [← (List.cons.inj hWhole).2, hText]
                  simp
                exact absurd hMem hNone
            | cons e before =>
                rcases List.cons.inj hWhole with ⟨hHead, hTail⟩
                have hSame := ih.mpr ⟨hTail, hNone⟩
                rw [hRest, Option.some.injEq, Prod.mk.injEq]
                  at hSame
                exact ⟨by rw [hHead, hSame.1], hSame.2⟩

end TextLines
