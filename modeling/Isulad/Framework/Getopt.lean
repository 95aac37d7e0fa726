import Mathlib.Data.List.Basic

/-!
# How `getopt_long` reads an argument vector

GNU `getopt_long` in its default mode permutes: it reads every element of `argv` after the
program name, wherever it stands, as an option when it begins with `-` and is not `-`
itself, until an element `--`, after which everything is an operand. An option that takes an
argument (given with no `=`) takes the next element, whatever it is, as that argument. Which
options take one is the program's table (`takesArg`).

So an element that begins with `-` is an option unless `--` comes before it or the option
before it takes it as its argument (`classify_operand`).
-/

namespace Getopt

/-- How one element of an argument vector is read. -/
inductive Arg
  | option (text : List Char)
  /-- The argument of the option just before it. -/
  | argument (text : List Char)
  | operand (text : List Char)
  deriving DecidableEq, Repr

/-- `--`, after which nothing is an option. -/
def dashDash : List Char := ['-', '-']

/-- An element read as an option: it begins with `-` and is not `-`. -/
def isOption (a : List Char) : Bool := a.head? = some '-' && a ≠ ['-']

/-- The reading of the elements after the program name. -/
def classify (takesArg : List Char → Bool) : List (List Char) → List Arg
  | [] => []
  | a :: rest =>
    if a = dashDash then rest.map .operand
    else if isOption a then
      if takesArg a then
        match rest with
        | [] => [.option a]
        | b :: rest' => .option a :: .argument b :: classify takesArg rest'
      else .option a :: classify takesArg rest
    else .operand a :: classify takesArg rest

attribute [local simp] classify in
/-- An operand is an element that comes after `--` or does not look like an option. -/
theorem classify_operand {takesArg : List Char → Bool} {argv : List (List Char)}
    {a : List Char} (h : Arg.operand a ∈ classify takesArg argv) :
    dashDash ∈ argv ∨ isOption a = false := by
  induction argv using classify.induct takesArg with
  | case1 => cases h
  | case2 rest => exact .inl List.mem_cons_self
  | case3 x hx hopt htakes =>
    simp [classify, hx, hopt, htakes] at h
  | case4 x hx hopt htakes b rest ih =>
    -- `x` takes `b` as its argument; only the rest can hold the operand
    unfold classify at h
    simp only [hx, hopt, htakes, if_false, if_true, List.mem_cons, reduceCtorEq,
      false_or] at h
    rcases ih h with hd | hd
    · exact .inl (List.mem_cons_of_mem _ (List.mem_cons_of_mem _ hd))
    · exact .inr hd
  | case5 x rest hx hopt htakes ih =>
    unfold classify at h
    simp only [hx, hopt, htakes, Bool.false_eq_true, if_false, if_true, List.mem_cons,
      reduceCtorEq, false_or] at h
    rcases ih h with hd | hd
    · exact .inl (List.mem_cons_of_mem _ hd)
    · exact .inr hd
  | case6 x rest hx hopt ih =>
    unfold classify at h
    simp only [hx, hopt, Bool.false_eq_true, if_false, List.mem_cons, Arg.operand.injEq] at h
    rcases h with rfl | h
    · exact .inr (by simpa using hopt)
    · rcases ih h with hd | hd
      · exact .inl (List.mem_cons_of_mem _ hd)
      · exact .inr hd

end Getopt
