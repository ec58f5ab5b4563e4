import Mathlib.Data.String.Basic

/-!
# Conditions of SQL statements, read from their text

The lexical rules for white space, comments, words, operators and quoted literals, as
PostgreSQL has them: a quote is doubled inside a literal, a literal goes on after white space
with a line break and another quote, and two dashes or a slash and a star open a comment.
The conditions are those made of text columns, literals, comparisons for equality and the
logical connectives; a statement with anything else in it is rejected.

A literal is no longer than the text it stands in (`length_of_mem_lex`), and a condition
cannot tell two values apart that it has no literal for (`Expr.eval_congr`).
-/

namespace Sql

/-! ## Tokens -/

inductive Token where
  /-- a key word or a name, in lower case -/
  | word (w : List Char)
  | literal (s : List Char)
  | symbol (o : List Char)
  | left
  | right
  | semicolon
  deriving DecidableEq

/-- Where the reader of a text is. -/
inductive State where
  | start
  | word (w : List Char)
  | symbol (o : List Char)
  /-- inside a literal -/
  | inside (s : List Char)
  /-- after a quote inside a literal -/
  | quote (s : List Char)
  /-- in the white space after a literal -/
  | gap (s : List Char) (newline : Bool)
  /-- after a dash in it -/
  | gapDash (s : List Char) (newline : Bool)
  /-- in a comment in it -/
  | gapComment (s : List Char)
  /-- in a comment that ends with the line -/
  | comment
  /-- in nested comments, with the character before -/
  | block (depth : ℕ) (last : Char)
  deriving DecidableEq

def isNewline (c : Char) : Bool := c == '\n' || c == '\r'

def isSpace (c : Char) : Bool :=
  c == ' ' || c == '\t' || c == '\n' || c == '\r' || c == '\x0B' || c == '\x0C'

def isSymbol (c : Char) : Bool := "+-*/<>=~!@#%^&|?".toList.contains c

def startsWord (c : Char) : Bool := c.isAlpha || c == '_' || 128 ≤ c.toNat

def isWord (c : Char) : Bool := startsWord c || c.isDigit || c == '$'

/-- The character that opens something new. -/
def opening (c : Char) : Option (List Token × State) :=
  if isSpace c then some ([], .start)
  else if startsWord c then some ([], .word [c.toLower])
  else if isSymbol c then some ([], .symbol [c])
  else if c = '\'' then some ([], .inside [])
  else if c = '(' then some ([.left], .start)
  else if c = ')' then some ([.right], .start)
  else if c = ';' then some ([.semicolon], .start)
  else none

/-- A character that opens something new after a token. -/
def after (t : Token) (c : Char) : Option (List Token × State) :=
  (opening c).map fun r => (t :: r.1, r.2)

/-- A character in the white space after a literal. -/
def gapNext (s : List Char) (newline : Bool) (c : Char) : Option (List Token × State) :=
  if isNewline c then some ([], .gap s true)
  else if isSpace c then some ([], .gap s newline)
  else if c = '-' then some ([], .gapDash s newline)
  else if c = '\'' ∧ newline = true then some ([], .inside s)
  else after (.literal s) c

/-- An operator ends where a comment begins. -/
def symbolBefore (o : List Char) : List Token :=
  if o.dropLast = [] then [] else [.symbol o.dropLast]

/-- One character. -/
def next (st : State) (c : Char) : Option (List Token × State) :=
  match st with
  | .start => opening c
  | .word w => if isWord c then some ([], .word (w ++ [c.toLower])) else after (.word w) c
  | .symbol o =>
    if c = '-' ∧ o.getLast? = some '-' then some (symbolBefore o, .comment)
    else if c = '*' ∧ o.getLast? = some '/' then some (symbolBefore o, .block 1 c)
    else if isSymbol c then some ([], .symbol (o ++ [c]))
    else after (.symbol o) c
  | .inside s => if c = '\'' then some ([], .quote s) else some ([], .inside (s ++ [c]))
  | .quote s => if c = '\'' then some ([], .inside (s ++ [c])) else gapNext s false c
  | .gap s newline => gapNext s newline c
  | .gapDash s _ =>
    if c = '-' then some ([], .gapComment s)
    else if isSymbol c then some ([.literal s], .symbol ['-', c])
    else (after (.symbol ['-']) c).map fun r => (.literal s :: r.1, r.2)
  | .gapComment s => if isNewline c then some ([], .gap s true) else some ([], .gapComment s)
  | .comment => if isNewline c then some ([], .start) else some ([], .comment)
  | .block depth last =>
    if last = '*' ∧ c = '/' then
      if depth ≤ 1 then some ([], .start) else some ([], .block (depth - 1) ' ')
    else if last = '/' ∧ c = '*' then some ([], .block (depth + 1) ' ')
    else some ([], .block depth c)

/-- The end of the text. A literal and a comment that can be nested are to be closed. -/
def finish : State → Option (List Token)
  | .start => some []
  | .word w => some [.word w]
  | .symbol o => some [.symbol o]
  | .inside _ => none
  | .quote s => some [.literal s]
  | .gap s _ => some [.literal s]
  | .gapDash s _ => some [.literal s, .symbol ['-']]
  | .gapComment s => some [.literal s]
  | .comment => some []
  | .block _ _ => none

/-- The tokens of a text, and where the reader is after it. -/
def runs (st : State) : List Char → Option (List Token × State)
  | [] => some ([], st)
  | c :: cs => do
    let (ts, st) ← next st c
    let (us, st) ← runs st cs
    return (ts ++ us, st)

/-- The tokens of a whole text. -/
def lex (text : List Char) : Option (List Token) := do
  let (ts, st) ← runs .start text
  let us ← finish st
  return ts ++ us

/-! ## Conditions -/

/-- A condition, or an operand of one. -/
inductive Expr (Col : Type) where
  | lit (s : String)
  | col (c : Col)
  | const (b : Bool)
  | same (l r : Expr Col)
  | not (e : Expr Col)
  | and (l r : Expr Col)
  | or (l r : Expr Col)

inductive Ty where
  | text
  | bool
  deriving DecidableEq

inductive Level where
  | or
  | and
  | not
  | comparison
  | primary

variable {Col : Type}

/-- Read an expression, with the columns by their names. -/
def parse (column : List Char → Option Col) : ℕ → Level → List Token →
    Option (Expr Col × List Token)
  | 0, _, _ => none
  | n + 1, .or, ts => do
    let (l, ts) ← parse column n .and ts
    match ts with
    | .word ['o', 'r'] :: us =>
      let (r, us) ← parse column n .or us
      return (.or l r, us)
    | _ => return (l, ts)
  | n + 1, .and, ts => do
    let (l, ts) ← parse column n .not ts
    match ts with
    | .word ['a', 'n', 'd'] :: us =>
      let (r, us) ← parse column n .and us
      return (.and l r, us)
    | _ => return (l, ts)
  | n + 1, .not, ts =>
    match ts with
    | .word ['n', 'o', 't'] :: us => do
      let (e, us) ← parse column n .not us
      return (.not e, us)
    | _ => parse column n .comparison ts
  | n + 1, .comparison, ts => do
    let (l, ts) ← parse column n .primary ts
    match ts with
    | .symbol o :: us =>
      let (r, us) ← parse column n .primary us
      if o = ['='] then return (.same l r, us)
      else if o = ['<', '>'] ∨ o = ['!', '='] then return (.not (.same l r), us)
      else none
    | _ => return (l, ts)
  | n + 1, .primary, ts =>
    match ts with
    | .left :: us => do
      let (e, us) ← parse column n .or us
      match us with
      | .right :: us => return (e, us)
      | _ => none
    | .literal s :: us => some (.lit (String.ofList s), us)
    | .word w :: us =>
      if w = ['t', 'r', 'u', 'e'] then some (.const true, us)
      else if w = ['f', 'a', 'l', 's', 'e'] then some (.const false, us)
      else (column w).map fun c => (.col c, us)
    | _ => none

namespace Expr

/-- What kind of value an expression has; literals are texts. -/
def check : Expr Col → Option Ty
  | .lit _ => some .text
  | .col _ => some .text
  | .const _ => some .bool
  | .same l r => if l.check = r.check ∧ l.check.isSome then some .bool else none
  | .not e => if e.check = some .bool then some .bool else none
  | .and l r => if l.check = some .bool ∧ r.check = some .bool then some .bool else none
  | .or l r => if l.check = some .bool ∧ r.check = some .bool then some .bool else none

/-- The value in a row. -/
def eval (row : Col → String) : Expr Col → String ⊕ Bool
  | .lit s => .inl s
  | .col c => .inl (row c)
  | .const b => .inr b
  | .same l r => .inr (decide (l.eval row = r.eval row))
  | .not e => .inr (decide (e.eval row ≠ .inr true))
  | .and l r => .inr (decide (l.eval row = .inr true ∧ r.eval row = .inr true))
  | .or l r => .inr (decide (l.eval row = .inr true ∨ r.eval row = .inr true))

/-- Is the condition true in a row? -/
def holds (row : Col → String) (e : Expr Col) : Bool := decide (e.eval row = .inr true)

/-- The literals of an expression. -/
def literals : Expr Col → List String
  | .lit s => [s]
  | .col _ => []
  | .const _ => []
  | .same l r => l.literals ++ r.literals
  | .not e => e.literals
  | .and l r => l.literals ++ r.literals
  | .or l r => l.literals ++ r.literals

end Expr

/-- The condition of a statement, after the words it begins with; nothing but semicolons
follows it. -/
def condition (column : List Char → Option Col) (head : List (List Char)) (text : List Char) :
    Option (Expr Col) := do
  -- a statement ends at a NUL when it is sent
  if '\x00' ∈ text then none
  else
    let ts ← lex text
    if head.map Token.word <+: ts then
      let (e, us) ← parse column (5 * ts.length + 5) .or (ts.drop head.length)
      if us.all (· = .semicolon) ∧ e.check = some .bool then return e else none
    else none

/-! ## Reading -/

theorem runs_append (st : State) (a b : List Char) : runs st (a ++ b) = (do
    let (ts, st) ← runs st a
    let (us, st) ← runs st b
    return (ts ++ us, st)) := by
  induction a generalizing st with
  | nil => simp [runs]
  | cons c cs ih =>
    simp only [List.cons_append, runs]
    rcases next st c with _ | ⟨ts, st'⟩
    · rfl
    · simp only [Option.bind_eq_bind, Option.bind_some, ih]
      rcases runs st' cs with _ | ⟨us, st''⟩
      · rfl
      · rcases h : runs st'' b with _ | ⟨vs, st'''⟩ <;> simp [h]

theorem runs_of_append {st st' st'' : State} {a b : List Char} {ts us : List Token}
    (ha : runs st a = some (ts, st')) (hb : runs st' b = some (us, st'')) :
    runs st (a ++ b) = some (ts ++ us, st'') := by
  rw [runs_append, ha]
  simp only [Option.bind_eq_bind, Option.bind_some, hb]
  rfl

/-- What has no quote is read into the literal. -/
theorem runs_inside {u : List Char} (s : List Char) (h : '\'' ∉ u) :
    runs (.inside s) u = some ([], .inside (s ++ u)) := by
  induction u generalizing s with
  | nil => rw [List.append_nil]; rfl
  | cons c cs ih =>
    have hc : c ≠ '\'' := fun heq => h (heq ▸ List.mem_cons_self)
    have hcs : '\'' ∉ cs := fun hmem => h (List.mem_cons_of_mem _ hmem)
    simp only [runs, next, if_neg hc, Option.bind_eq_bind, Option.bind_some, ih _ hcs,
      List.append_assoc, List.singleton_append, List.nil_append]
    rfl

/-! ## The length of literals -/

/-- How long a literal can still become, as against what remains of the text. -/
def State.size : State → ℕ
  | .inside s => s.length
  | .quote s => s.length + 1
  | .gap s _ => s.length + 1
  | .gapDash s _ => s.length + 1
  | .gapComment s => s.length + 1
  | _ => 1

/-- The literals among tokens are shorter than `n`. -/
def Short (n : ℕ) (ts : List Token) : Prop := ∀ s, Token.literal s ∈ ts → s.length < n

theorem Short.mono {m n : ℕ} {ts : List Token} (h : Short m ts) (hmn : m ≤ n) : Short n ts :=
  fun s hs => (h s hs).trans_le hmn

theorem Short.append {n : ℕ} {ts us : List Token} (h : Short n ts) (h' : Short n us) :
    Short n (ts ++ us) := fun s hs => (List.mem_append.mp hs).elim (h s) (h' s)

theorem Short.cons {n : ℕ} {s : List Char} {ts : List Token} (h : Short n ts)
    (hs : s.length < n) : Short n (.literal s :: ts) := fun t ht => by
  rcases List.mem_cons.mp ht with heq | ht
  · exact (Token.literal.inj heq) ▸ hs
  · exact h t ht

theorem short_nil (n : ℕ) : Short n [] := fun _ h => absurd h List.not_mem_nil

theorem opening_size {c : Char} {ts : List Token} {st : State} (h : opening c = some (ts, st)) :
    Short 0 ts ∧ st.size ≤ 1 := by
  unfold opening at h
  repeat' split at h
  all_goals
    cases h
    try exact ⟨fun s hs => by simp at hs, by simp [State.size]⟩

theorem after_size {t : Token} {c : Char} {ts : List Token} {st : State}
    (h : after t c = some (ts, st)) : (∃ us, ts = t :: us ∧ Short 0 us) ∧ st.size ≤ 1 := by
  obtain ⟨⟨us, st'⟩, hopen, heq⟩ := Option.map_eq_some_iff.mp h
  obtain ⟨rfl, rfl⟩ := Prod.mk.inj heq
  exact ⟨⟨us, rfl, (opening_size hopen).1⟩, (opening_size hopen).2⟩

theorem gapNext_size {s : List Char} {newline : Bool} {c : Char} {ts : List Token} {st : State}
    (h : gapNext s newline c = some (ts, st)) :
    Short (s.length + 1) ts ∧ st.size ≤ s.length + 1 := by
  unfold gapNext at h
  split at h
  · cases h
    exact ⟨short_nil _, le_rfl⟩
  split at h
  · cases h
    exact ⟨short_nil _, le_rfl⟩
  split at h
  · cases h
    exact ⟨short_nil _, le_rfl⟩
  split at h
  · cases h
    exact ⟨short_nil _, Nat.le_succ _⟩
  · obtain ⟨⟨us, rfl, hshort⟩, hsize⟩ := after_size h
    exact ⟨(hshort.mono (Nat.zero_le _)).cons (Nat.lt_succ_self _), hsize.trans (Nat.le_add_left ..)⟩

theorem short_symbolBefore (o : List Char) : Short 0 (symbolBefore o) := by
  unfold symbolBefore
  split
  · exact short_nil _
  · exact fun s hs => by simp at hs

/-- A token other than a literal before tokens. -/
theorem Short.skip {n : ℕ} {t : Token} {ts : List Token} (h : Short n ts)
    (ht : ∀ s, t ≠ .literal s) : Short n (t :: ts) := fun s hs => by
  rcases List.mem_cons.mp hs with heq | hs
  · exact absurd heq.symm (ht s)
  · exact h s hs

/-- **One character** lengthens a literal by one character at most. -/
theorem next_size {st st' : State} {c : Char} {ts : List Token}
    (h : next st c = some (ts, st')) : Short st.size ts ∧ st'.size ≤ st.size + 1 := by
  have hafter : ∀ {t : Token}, (∀ s, t ≠ .literal s) → after t c = some (ts, st') →
      (∀ n, Short n ts) ∧ st'.size ≤ 1 := by
    intro t ht hs
    obtain ⟨⟨us, rfl, hshort⟩, hsize⟩ := after_size hs
    exact ⟨fun n => (hshort.mono (Nat.zero_le n)).skip ht, hsize⟩
  cases st with
  | start => exact ⟨(opening_size h).1.mono (Nat.zero_le _), (opening_size h).2.trans (Nat.le_succ _)⟩
  | word w =>
    simp only [next] at h
    split at h
    · cases h
      exact ⟨short_nil _, Nat.le_succ _⟩
    · obtain ⟨hshort, hsize⟩ := hafter (fun _ => by simp) h
      exact ⟨hshort _, hsize.trans (Nat.le_succ _)⟩
  | symbol o =>
    simp only [next] at h
    split at h
    · cases h
      exact ⟨(short_symbolBefore o).mono (Nat.zero_le _), Nat.le_succ _⟩
    split at h
    · cases h
      exact ⟨(short_symbolBefore o).mono (Nat.zero_le _), Nat.le_succ _⟩
    split at h
    · cases h
      exact ⟨short_nil _, Nat.le_succ _⟩
    · obtain ⟨hshort, hsize⟩ := hafter (fun _ => by simp) h
      exact ⟨hshort _, hsize.trans (Nat.le_succ _)⟩
  | inside s =>
    simp only [next] at h
    split at h
    · cases h
      exact ⟨short_nil _, le_rfl⟩
    · cases h
      exact ⟨short_nil _, by simp [State.size]⟩
  | quote s =>
    simp only [next] at h
    split at h
    · cases h
      exact ⟨short_nil _, by simp [State.size]⟩
    · exact ⟨(gapNext_size h).1, (gapNext_size h).2.trans (Nat.le_succ _)⟩
  | gap s newline => exact ⟨(gapNext_size h).1, (gapNext_size h).2.trans (Nat.le_succ _)⟩
  | gapDash s newline =>
    simp only [next] at h
    split at h
    · cases h
      exact ⟨short_nil _, Nat.le_succ _⟩
    split at h
    · cases h
      exact ⟨(short_nil _).cons (Nat.lt_succ_self _), Nat.le_add_left ..⟩
    · obtain ⟨⟨us, st''⟩, hs, heq⟩ := Option.map_eq_some_iff.mp h
      obtain ⟨rfl, rfl⟩ := Prod.mk.inj heq
      obtain ⟨⟨vs, rfl, hshort⟩, hsize⟩ := after_size hs
      exact ⟨((hshort.mono (Nat.zero_le _)).skip fun _ => by simp).cons (Nat.lt_succ_self _),
        hsize.trans (Nat.le_add_left ..)⟩
  | gapComment s =>
    simp only [next] at h
    split at h <;> cases h <;> exact ⟨short_nil _, Nat.le_succ _⟩
  | comment =>
    simp only [next] at h
    split at h <;> cases h <;> exact ⟨short_nil _, Nat.le_succ _⟩
  | block depth last =>
    simp only [next] at h
    split at h
    · split at h <;> cases h <;> exact ⟨short_nil _, Nat.le_succ _⟩
    · split at h <;> cases h <;> exact ⟨short_nil _, Nat.le_succ _⟩

theorem finish_size {st : State} {ts : List Token} (h : finish st = some ts) : Short st.size ts := by
  cases st with
  | inside s => cases h
  | block depth last => cases h
  | quote s | gap s newline | gapComment s =>
    cases h
    exact (short_nil _).cons (Nat.lt_succ_self _)
  | gapDash s newline =>
    cases h
    exact ((short_nil _).skip fun _ => by simp).cons (Nat.lt_succ_self _)
  | start | word w | symbol o | comment =>
    cases h
    exact fun s hs => by simp at hs

/-- **A run** makes literals of what it reads. -/
theorem runs_size {st st' : State} {cs : List Char} {ts : List Token}
    (h : runs st cs = some (ts, st')) :
    Short (st.size + cs.length) ts ∧ st'.size ≤ st.size + cs.length := by
  induction cs generalizing st ts with
  | nil =>
    cases h
    exact ⟨short_nil _, le_rfl⟩
  | cons c cs ih =>
    simp only [runs, Option.bind_eq_bind, Option.bind_eq_some_iff] at h
    obtain ⟨⟨us, st₁⟩, hnext, ⟨vs, st₂⟩, hruns, heq⟩ := h
    obtain ⟨rfl, rfl⟩ := Prod.mk.inj (Option.some.inj heq)
    obtain ⟨hshort, hsize⟩ := next_size hnext
    obtain ⟨hshort', hsize'⟩ := ih hruns
    have hlen : st₁.size + cs.length ≤ st.size + (c :: cs).length := by
      rw [List.length_cons]
      omega
    exact ⟨(hshort.mono (Nat.le_add_right ..)).append (hshort'.mono hlen), hsize'.trans hlen⟩

theorem quote_size {s : List Char} {st : State} {c : Char} {ts : List Token}
    (h : next (.quote s) c = some (ts, st)) : Short (s.length + 1) ts ∧ st.size ≤ s.length + 1 := by
  simp only [next] at h
  split at h
  · cases h
    exact ⟨short_nil _, by simp [State.size]⟩
  · exact gapNext_size h

/-- A literal that is closed early, or that holds a quote, is shorter than what stands
between its quotes. -/
theorem short_of_quote {u : List Char} {st : State} {ts us : List Token} (hu : '\'' ∈ u)
    (h : runs (.inside []) (u ++ ['\'']) = some (ts, st)) (hfin : finish st = some us) :
    Short u.length (ts ++ us) := by
  obtain ⟨a, b, rfl, ha⟩ := List.eq_append_cons_of_mem hu
  obtain ⟨c, cs, hcs, hlen⟩ : ∃ c cs, b ++ ['\''] = c :: cs ∧ cs.length = b.length := by
    rcases b with _ | ⟨c, b⟩
    · exact ⟨_, _, rfl, rfl⟩
    · exact ⟨c, b ++ ['\''], rfl, by rw [List.length_append]; rfl⟩
  rw [List.append_assoc, List.cons_append, runs_append, runs_inside [] ha, List.nil_append, hcs] at h
  simp only [Option.bind_eq_bind, Option.bind_some, runs, next, if_pos, List.nil_append,
    Option.bind_eq_some_iff] at h
  obtain ⟨⟨vs, st₂⟩, ⟨⟨ws, st₃⟩, ⟨⟨ts₁, st₁⟩, hnext, ⟨ts₂, st₄⟩, hruns, heq₄⟩, heq₃⟩, heq₂⟩ := h
  cases heq₄
  cases heq₃
  cases heq₂
  obtain ⟨hshort, hsize⟩ := quote_size hnext
  obtain ⟨hshort', hsize'⟩ := runs_size hruns
  have hle : st₁.size + cs.length ≤ (a ++ '\'' :: b).length := by
    rw [List.length_append, List.length_cons]
    omega
  refine ((hshort.mono ?_).append (hshort'.mono hle)).append
    ((finish_size hfin).mono (hsize'.trans hle))
  rw [List.length_append, List.length_cons]
  omega

/-! ## What conditions depend on -/

section Reading

variable {column : List Char → Option Col}

/-- The literals of an expression are among the tokens it is read from. -/
theorem parse_literals {n : ℕ} {level : Level} {ts us : List Token} {e : Expr Col}
    (h : parse column n level ts = some (e, us)) :
    (∀ s ∈ e.literals, Token.literal s.toList ∈ ts) ∧ us ⊆ ts := by
  induction n generalizing level ts us e with
  | zero => cases h
  | succ n ih =>
    cases level with
    | or | and =>
      simp only [parse, Option.bind_eq_bind, Option.bind_eq_some_iff] at h
      obtain ⟨⟨l, ts₁⟩, hl, h⟩ := h
      obtain ⟨hlit, hsub⟩ := ih hl
      split at h
      next us₁ hts =>
        change ts₁ = _ at hts
        subst hts
        obtain ⟨⟨r, us₂⟩, hr, heq⟩ := Option.bind_eq_some_iff.mp h
        cases heq
        obtain ⟨hlit', hsub'⟩ := ih hr
        have htail : us₁ ⊆ ts := fun t ht => hsub (List.mem_cons_of_mem _ ht)
        refine ⟨fun s hs => ?_, fun t ht => htail (hsub' ht)⟩
        rcases List.mem_append.mp hs with hs | hs
        · exact hlit s hs
        · exact htail (hlit' s hs)
      next =>
        cases h
        exact ⟨hlit, hsub⟩
    | not =>
      simp only [parse] at h
      split at h
      next us₁ =>
        simp only [Option.bind_eq_bind, Option.bind_eq_some_iff] at h
        obtain ⟨⟨l, us₂⟩, hl, heq⟩ := h
        cases heq
        obtain ⟨hlit, hsub⟩ := ih hl
        exact ⟨fun s hs => List.mem_cons_of_mem _ (hlit s hs),
          fun t ht => List.mem_cons_of_mem _ (hsub ht)⟩
      next => exact ih h
    | comparison =>
      simp only [parse, Option.bind_eq_bind, Option.bind_eq_some_iff] at h
      obtain ⟨⟨l, ts₁⟩, hl, h⟩ := h
      obtain ⟨hlit, hsub⟩ := ih hl
      split at h
      next o us₁ hts =>
        change ts₁ = _ at hts
        subst hts
        obtain ⟨⟨r, us₂⟩, hr, h⟩ := Option.bind_eq_some_iff.mp h
        obtain ⟨hlit', hsub'⟩ := ih hr
        have htail : us₁ ⊆ ts := fun t ht => hsub (List.mem_cons_of_mem _ ht)
        have hboth : ∀ s ∈ l.literals ++ r.literals, Token.literal s.toList ∈ ts := fun s hs =>
          (List.mem_append.mp hs).elim (hlit s) fun hs => htail (hlit' s hs)
        simp only at h
        split at h
        · cases h
          exact ⟨hboth, fun t ht => htail (hsub' ht)⟩
        split at h
        · cases h
          exact ⟨hboth, fun t ht => htail (hsub' ht)⟩
        · cases h
      next =>
        cases h
        exact ⟨hlit, hsub⟩
    | primary =>
      simp only [parse] at h
      split at h
      next us₁ =>
        simp only [Option.bind_eq_bind, Option.bind_eq_some_iff] at h
        obtain ⟨⟨l, ts₁⟩, hl, h⟩ := h
        obtain ⟨hlit, hsub⟩ := ih hl
        split at h
        next us₂ hts =>
          change ts₁ = _ at hts
          subst hts
          cases h
          exact ⟨fun s hs => List.mem_cons_of_mem _ (hlit s hs),
            fun t ht => List.mem_cons_of_mem _ (hsub (List.mem_cons_of_mem _ ht))⟩
        next => cases h
      next s us₁ =>
        cases h
        refine ⟨fun t ht => ?_, List.subset_cons_self ..⟩
        rw [Expr.literals, List.mem_singleton] at ht
        rw [ht, String.toList_ofList]
        exact List.mem_cons_self
      next w us₁ =>
        split at h
        · cases h
          exact ⟨fun t ht => absurd ht List.not_mem_nil, List.subset_cons_self ..⟩
        split at h
        · cases h
          exact ⟨fun t ht => absurd ht List.not_mem_nil, List.subset_cons_self ..⟩
        · obtain ⟨c, -, heq⟩ := Option.map_eq_some_iff.mp h
          cases heq
          exact ⟨fun t ht => absurd ht List.not_mem_nil, List.subset_cons_self ..⟩
      next => cases h

theorem condition_literals {head : List (List Char)} {text : List Char} {e : Expr Col}
    (h : condition column head text = some e) : '\x00' ∉ text ∧ ∃ ts, lex text = some ts ∧
      ∀ s ∈ e.literals, Token.literal s.toList ∈ ts := by
  unfold condition at h
  split at h
  · cases h
  next hnul =>
    refine ⟨hnul, ?_⟩
    simp only [Option.bind_eq_bind, Option.bind_eq_some_iff] at h
    obtain ⟨ts, hlex, h⟩ := h
    refine ⟨ts, hlex, ?_⟩
    split at h
    · obtain ⟨⟨e', us⟩, hparse, h⟩ := Option.bind_eq_some_iff.mp h
      simp only at h
      split at h
      · cases h
        exact fun s hs => List.mem_of_mem_drop ((parse_literals hparse).1 s hs)
      · cases h
    · cases h

end Reading

/-- A value is the same in two rows and is neither `u` nor `u'`, or it is `u` in the one and
`u'` in the other. -/
def Alike (u u' : String) (a a' : String) : Prop :=
  (a = a' ∧ a ≠ u ∧ a ≠ u') ∨ (a = u ∧ a' = u')

theorem Alike.eq_iff {u u' a a' b b' : String} (ha : Alike u u' a a') (hb : Alike u u' b b') :
    a = b ↔ a' = b' := by
  rcases ha with ⟨rfl, hu, hu'⟩ | ⟨rfl, rfl⟩ <;> rcases hb with ⟨rfl, hv, hv'⟩ | ⟨rfl, rfl⟩
  · rfl
  · exact iff_of_false hu hu'
  · exact iff_of_false (Ne.symm hv) (Ne.symm hv')
  · exact iff_of_true rfl rfl

/-- **Two values that a condition does not name** are the same to it. -/
theorem Expr.eval_congr {u u' : String} {row row' : Col → String} {e : Expr Col}
    (hrow : ∀ c, Alike u u' (row c) (row' c)) (he : u ∉ e.literals ∧ u' ∉ e.literals) :
    (∃ a a', e.eval row = .inl a ∧ e.eval row' = .inl a' ∧ Alike u u' a a') ∨
      ∃ b, e.eval row = .inr b ∧ e.eval row' = .inr b := by
  induction e with
  | lit s =>
    refine .inl ⟨s, s, rfl, rfl, .inl ⟨rfl, ?_, ?_⟩⟩
    · exact fun h => he.1 (List.mem_singleton.mpr h.symm)
    · exact fun h => he.2 (List.mem_singleton.mpr h.symm)
  | col c => exact .inl ⟨_, _, rfl, rfl, hrow c⟩
  | const b => exact .inr ⟨b, rfl, rfl⟩
  | same l r ihl ihr =>
    simp only [literals, List.mem_append, not_or] at he
    refine .inr ⟨_, rfl, ?_⟩
    simp only [eval]
    rcases ihl ⟨he.1.1, he.2.1⟩ with ⟨a, a', ha, ha', haa⟩ | ⟨a, ha, ha'⟩ <;>
      rcases ihr ⟨he.1.2, he.2.2⟩ with ⟨b, b', hb, hb', hbb⟩ | ⟨b, hb, hb'⟩ <;>
      rw [ha, ha', hb, hb']
    · simp only [Sum.inl.injEq, haa.eq_iff hbb]
    · simp
    · simp
  | not e ih =>
    refine .inr ⟨_, rfl, ?_⟩
    simp only [eval]
    rcases ih he with ⟨a, a', ha, ha', -⟩ | ⟨b, hb, hb'⟩
    · rw [ha, ha']
      simp
    · rw [hb, hb']
  | and l r ihl ihr | or l r ihl ihr =>
    simp only [literals, List.mem_append, not_or] at he
    have htrue : ∀ {e : Expr Col}, ((∃ a a', e.eval row = .inl a ∧ e.eval row' = .inl a' ∧
        Alike u u' a a') ∨ ∃ b, e.eval row = .inr b ∧ e.eval row' = .inr b) →
        (e.eval row' = .inr true ↔ e.eval row = .inr true) := by
      rintro e (⟨a, a', ha, ha', -⟩ | ⟨b, hb, hb'⟩)
      · rw [ha, ha']
        simp
      · rw [hb, hb']
    refine .inr ⟨_, rfl, ?_⟩
    simp only [eval, htrue (ihl ⟨he.1.1, he.2.1⟩), htrue (ihr ⟨he.1.2, he.2.2⟩)]

theorem Expr.holds_congr {u u' : String} {row row' : Col → String} {e : Expr Col}
    (hrow : ∀ c, Alike u u' (row c) (row' c)) (he : u ∉ e.literals ∧ u' ∉ e.literals) :
    e.holds row = e.holds row' := by
  unfold holds
  rcases e.eval_congr hrow he with ⟨a, a', ha, ha', -⟩ | ⟨b, hb, hb'⟩
  · rw [ha, ha']
    simp
  · rw [hb, hb']

end Sql
