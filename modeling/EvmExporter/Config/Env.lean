import EvmExporter.Lib.Template
import EvmExporter.Lib.Utf8

/-! Environment variables in a configuration text: `expand_env` of `config.rs`. The code walks
the text by byte position and slices it; it never slices inside a character, and what it
computes is the expansion of the references of the text. -/

namespace EvmExporter

open Lib

/-- Why `std::env::var` has no value. -/
inductive VarError where
  | notPresent | notUnicode

abbrev Environment := String → Except VarError String

/-- The value of a variable, empty without one. -/
def Environment.value (env : Environment) (name : String) : String := (env name).toOption.getD ""

def isShellIdent (name : String) : Bool :=
  match name.toList with
  | [] => false
  | c :: cs => (c = '_' || c.isAlpha) && cs.all fun c => c = '_' || c.isAlphanum

/-- Copy the character at byte position `i`: the next position and the text to push. -/
def copyChar (s : List Char) (i : ℕ) : Option (ℕ × List Char) :=
  ((sliceFrom s i).bind List.head?).map fun ch => (i + ch.utf8Size, [ch])

/-- One round of the loop at byte position `i`; none where the code panics. -/
def expandRound (env : Environment) (s : List Char) (i : ℕ) : Option (ℕ × List Char) :=
  if (utf8Bytes s)[i]? = some (asciiByte '$') ∧
      (utf8Bytes s)[i + 1]? = some (asciiByte '{') then do
    let tail ← sliceFrom s (i + 2)
    match findChar '}' tail with
    | none => copyChar s i
    | some close =>
      let name ← slice s (i + 2) (i + 2 + close)
      if isShellIdent (.ofList name) then
        some (i + 2 + close + 1, (env.value (.ofList name)).toList)
      else copyChar s i
  else copyChar s i

/-- The loop, for at most so many rounds. -/
def expandLoop (env : Environment) (s : List Char) : ℕ → ℕ → List Char → Option (List Char)
  | 0, i, out => if i < byteLength s then none else some out
  | rounds + 1, i, out =>
    if i < byteLength s then
      (expandRound env s i).bind fun (next, text) => expandLoop env s rounds next (out ++ text)
    else some out

/-- Replace `$NAME` in braces by the value of the variable. Every round advances, so there
are at most as many as bytes. -/
def expandEnv (env : Environment) (s : String) : Option String :=
  (expandLoop env s.toList (byteLength s.toList) 0 []).map String.ofList

/-! ### References -/

structure ShellIdent where
  name : String
  valid : isShellIdent name

theorem ShellIdent.char_ne (n : ShellIdent) {a : Char} (ha : a ≠ '_' ∧ ¬ a.isAlphanum) :
    a ∉ n.name.toList := by
  intro hmem
  have hv := n.valid
  unfold isShellIdent at hv
  cases hl : n.name.toList with
  | nil => simp [hl] at hmem
  | cons c cs =>
    simp only [hl, Bool.and_eq_true, Bool.or_eq_true, decide_eq_true_eq, List.all_eq_true] at hv
    rw [hl] at hmem
    rcases List.mem_cons.mp hmem with rfl | hmem
    · rcases hv.1 with h | h
      · exact ha.1 h
      · exact ha.2 (by simp [Char.isAlphanum, h])
    · rcases hv.2 a hmem with h | h
      · exact ha.1 h
      · exact ha.2 h

/-- The references of a configuration text: a name in braces behind a dollar sign. -/
def envReferences : References Char ShellIdent where
  mark := '$'
  body n := '{' :: (n.name.toList ++ ['}'])
  mark_notMem n := by
    have hn := n.char_ne (a := '$') (by decide)
    simp [hn]
  unique n m r r' h := by
    have hn := n.char_ne (a := '}') (by decide)
    have hm := m.char_ne (a := '}') (by decide)
    have hlist : n.name.toList ++ '}' :: r = m.name.toList ++ '}' :: r' := by simpa using h
    have hname := append_cons_inj_left hn hm hlist
    cases n
    cases m
    simpa using String.toList_injective hname

/-- The value of a reference. -/
def Environment.expansion (env : Environment) (n : ShellIdent) : List Char :=
  (env.value n.name).toList

/-! ### The loop computes the expansion -/

variable {env : Environment}

/-- The two bytes the code looks for are the two characters. -/
theorem opens_iff (pre post : List Char) :
    ((utf8Bytes (pre ++ post))[byteLength pre]? = some (asciiByte '$') ∧
      (utf8Bytes (pre ++ post))[byteLength pre + 1]? = some (asciiByte '{')) ↔
      ∃ tail, post = '$' :: '{' :: tail := by
  rw [utf8Bytes_getElem?_byteLength (by decide)]
  have hsecond (post : List Char) :
      (utf8Bytes (pre ++ '$' :: post))[byteLength pre + 1]? = some (asciiByte '{') ↔
        post.head? = some '{' := by
    have hnext : byteLength pre + 1 = byteLength (pre ++ ['$']) := by
      rw [byteLength_append]
      rfl
    rw [hnext, List.append_cons]
    exact utf8Bytes_getElem?_byteLength (by decide) _ post
  constructor
  · rintro ⟨hdollar, hbrace⟩
    obtain ⟨post, rfl⟩ := List.head?_eq_some_iff.mp hdollar
    obtain ⟨tail, rfl⟩ := List.head?_eq_some_iff.mp ((hsecond post).mp hbrace)
    exact ⟨tail, rfl⟩
  · rintro ⟨tail, rfl⟩
    exact ⟨rfl, (hsecond _).mpr rfl⟩

theorem copyChar_eq (pre : List Char) (c : Char) (post : List Char) :
    copyChar (pre ++ c :: post) (byteLength pre) = some (byteLength (pre ++ [c]), [c]) := by
  simp [copyChar, sliceFrom_byteLength_append]

/-- What a round does behind the two opening characters. -/
theorem expandRound_opened (env : Environment) (pre tail : List Char) :
    expandRound env (pre ++ '$' :: '{' :: tail) (byteLength pre) =
      match findChar '}' tail with
      | none => copyChar (pre ++ '$' :: '{' :: tail) (byteLength pre)
      | some close => (sliceTo tail close).bind fun name =>
        if isShellIdent (.ofList name) then
          some (byteLength pre + 2 + close + 1, (env.value (.ofList name)).toList)
        else copyChar (pre ++ '$' :: '{' :: tail) (byteLength pre) := by
  have hopen := (opens_iff pre _).mpr ⟨tail, rfl⟩
  have htail : sliceFrom (pre ++ '$' :: '{' :: tail) (byteLength pre + 2) = some tail := by
    have hlen : byteLength pre + 2 = byteLength (pre ++ ['$', '{']) := by
      rw [byteLength_append]
      rfl
    have hsplit : pre ++ '$' :: '{' :: tail = (pre ++ ['$', '{']) ++ tail := by simp
    rw [hlen, hsplit, sliceFrom_byteLength_append]
  rw [expandRound, if_pos hopen, htail]
  simp only [Option.bind_eq_bind, Option.bind_some]
  cases findChar '}' tail with
  | none => rfl
  | some close =>
    simp only [slice, Nat.le_add_right, if_true, htail, Option.bind_some, Nat.add_sub_cancel_left]

/-- A round at a reference pushes its value. -/
theorem expandRound_reference (env : Environment) (pre : List Char) (n : ShellIdent)
    (post : List Char) :
    expandRound env (pre ++ (envReferences.word n ++ post)) (byteLength pre) =
      some (byteLength (pre ++ envReferences.word n), env.expansion n) := by
  have hclose := n.char_ne (a := '}') (by decide)
  have hword : envReferences.word n ++ post =
      '$' :: '{' :: (n.name.toList ++ '}' :: post) := by
    simp [References.word, envReferences]
  have hlen : byteLength (pre ++ envReferences.word n) =
      byteLength pre + 2 + byteLength n.name.toList + 1 := by
    have hsizes : '$'.utf8Size = 1 ∧ '{'.utf8Size = 1 ∧ '}'.utf8Size = 1 := ⟨rfl, rfl, rfl⟩
    simp only [References.word, envReferences, byteLength_append, byteLength_cons, byteLength_nil,
      hsizes]
    omega
  rw [hword, expandRound_opened, findChar_append hclose, hlen]
  simp [sliceTo_byteLength_append, n.valid, Environment.expansion]

/-- A round where no reference begins copies a character. -/
theorem expandRound_copy (env : Environment) (pre : List Char) (c : Char) (post : List Char)
    (hno : ∀ n, ¬ envReferences.word n <+: c :: post) :
    expandRound env (pre ++ c :: post) (byteLength pre) = some (byteLength (pre ++ [c]), [c]) := by
  by_cases hopen : ∃ tail, c :: post = '$' :: '{' :: tail
  · obtain ⟨tail, htail⟩ := hopen
    rw [← copyChar_eq pre c post, htail, expandRound_opened]
    by_cases hmem : '}' ∈ tail
    · obtain ⟨name, rest, rfl, hname⟩ := List.eq_append_cons_of_mem hmem
      have hbad : ¬ isShellIdent (.ofList name) := by
        intro hvalid
        refine hno ⟨_, hvalid⟩ ⟨rest, ?_⟩
        rw [htail]
        simp [References.word, envReferences]
      rw [findChar_append hname]
      simp [sliceTo_byteLength_append, hbad]
    · rw [findChar_eq_none hmem]
  · rw [expandRound, if_neg (mt (opens_iff pre _).mp hopen), copyChar_eq]

/-- A round that pushes `text` for the characters `w` moves the loop behind them. -/
theorem expandLoop_succ {pre w post text : List Char}
    (hround : expandRound env (pre ++ (w ++ post)) (byteLength pre) =
      some (byteLength (pre ++ w), text)) (hw : 0 < byteLength w) (rounds : ℕ) (out : List Char) :
    expandLoop env (pre ++ (w ++ post)) (rounds + 1) (byteLength pre) out =
      expandLoop env (pre ++ w ++ post) rounds (byteLength (pre ++ w)) (out ++ text) := by
  have hlt : byteLength pre < byteLength (pre ++ (w ++ post)) := by
    simp only [byteLength_append]
    omega
  rw [expandLoop, if_pos hlt, hround, Option.bind_some, List.append_assoc]

/-- From a position between characters the loop appends the expansion of what follows. -/
theorem expandLoop_eq {pre post t out : List Char} {rounds : ℕ}
    (h : envReferences.Expands env.expansion post t) (hrounds : byteLength post ≤ rounds) :
    expandLoop env (pre ++ post) rounds (byteLength pre) out = some (out ++ t) := by
  induction h generalizing pre out rounds with
  | nil => cases rounds <;> simp [expandLoop]
  | @reference n s t _ ih =>
    have hpos : 0 < byteLength (envReferences.word n) := by
      rw [References.word, byteLength_cons]
      exact Nat.add_pos_left (Char.utf8Size_pos _) _
    rw [byteLength_append] at hrounds
    obtain ⟨rounds, rfl⟩ := Nat.exists_eq_add_one_of_ne_zero (n := rounds) (by omega)
    rw [expandLoop_succ (expandRound_reference env pre n s) hpos, ih (by omega),
      List.append_assoc]
  | @copy c s t hno _ ih =>
    have hpos : 0 < byteLength [c] := by simpa using c.utf8Size_pos
    rw [byteLength_cons] at hrounds
    have hsize := c.utf8Size_pos
    obtain ⟨rounds, rfl⟩ := Nat.exists_eq_add_one_of_ne_zero (n := rounds) (by omega)
    have hround := expandRound_copy env pre c s hno
    rw [← List.singleton_append, expandLoop_succ hround hpos, ih (by omega), List.append_assoc,
      List.singleton_append]

/-- The code never panics, and computes the expansion of the references of the text. -/
theorem expandEnv_eq_some {s t : String} :
    expandEnv env s = some t ↔ envReferences.Expands env.expansion s.toList t.toList := by
  obtain ⟨t', ht'⟩ := envReferences.exists_expands env.expansion s.toList
  have hloop : expandLoop env ([] ++ s.toList) (byteLength s.toList) (byteLength []) [] =
      some ([] ++ t') := expandLoop_eq ht' le_rfl
  rw [List.nil_append, byteLength_nil, List.nil_append] at hloop
  rw [expandEnv, hloop, Option.map_some, Option.some.injEq]
  constructor
  · rintro rfl
    rwa [String.toList_ofList]
  · intro ht
    rw [ht'.unique ht, String.ofList_toList]

theorem exists_expandEnv (env : Environment) (s : String) : ∃ t, expandEnv env s = some t := by
  obtain ⟨t, ht⟩ := envReferences.exists_expands env.expansion s.toList
  exact ⟨.ofList t, expandEnv_eq_some.mpr (by rwa [String.toList_ofList])⟩

/-- The text of a reference. -/
def ShellIdent.braced (n : ShellIdent) : String := "$\x7b" ++ n.name ++ "\x7d"

theorem ShellIdent.braced_toList (n : ShellIdent) :
    n.braced.toList = envReferences.word n := by
  simp [ShellIdent.braced, References.word, envReferences]

/-- The text contains a reference to a variable. -/
def HasReference (s : String) : Prop := ∃ n : ShellIdent, n.braced.toList <:+: s.toList

theorem hasReference_iff {s : String} : HasReference s ↔ envReferences.Occurs s.toList := by
  simp only [HasReference, References.Occurs, ShellIdent.braced_toList]

theorem expandEnv_of_not_hasReference {s : String} (h : ¬ HasReference s) :
    expandEnv env s = some s :=
  expandEnv_eq_some.mpr (References.expands_self (mt hasReference_iff.mpr h))

/-- Expansion replaces each reference by the value of its variable, which is not read again,
and leaves every other part of the text as it is; it reads both sides of a reference on their
own, whatever they are. -/
theorem expandEnv_replaces (env : Environment) :
    (∀ (a b : String) (n : ShellIdent), ∃ ea eb, expandEnv env a = some ea ∧
      expandEnv env b = some eb ∧
      expandEnv env (a ++ n.braced ++ b) = some (ea ++ env.value n.name ++ eb)) ∧
    (∀ s, ¬ HasReference s → expandEnv env s = some s) ∧
    ∀ name, env name = .error .notPresent → env.value name = "" := by
  refine ⟨fun a b n => ?_, fun s => expandEnv_of_not_hasReference, fun name hname => ?_⟩
  · obtain ⟨ea, hea⟩ := exists_expandEnv env a
    obtain ⟨eb, heb⟩ := exists_expandEnv env b
    refine ⟨ea, eb, hea, heb, expandEnv_eq_some.mpr ?_⟩
    have hword := (expandEnv_eq_some.mp hea).append_word (expandEnv_eq_some.mp heb) n
    simpa [ShellIdent.braced_toList, Environment.expansion] using hword
  · simp [Environment.value, hname, Except.toOption]

/-- An environment with a home directory and nothing else. -/
def homeEnv : Environment := fun name =>
  if name = "HOME" then .ok "/root" else .error .notPresent

/-- An unclosed reference and a character of two bytes in front of a reference. -/
theorem home_expanded :
    expandEnv homeEnv ("é$\x7bX" ++ "$\x7bHOME\x7d" ++ "/x") = some "é$\x7bX/root/x" := by
  obtain ⟨ea, eb, hea, heb, h⟩ :=
    (expandEnv_replaces homeEnv).1 "é$\x7bX" "/x" ⟨"HOME", by decide⟩
  have ha : expandEnv homeEnv "é$\x7bX" = some "é$\x7bX" := by decide +kernel
  have hb : expandEnv homeEnv "/x" = some "/x" := by decide +kernel
  obtain rfl := Option.some.inj (ha.symm.trans hea)
  obtain rfl := Option.some.inj (hb.symm.trans heb)
  exact h

end EvmExporter
