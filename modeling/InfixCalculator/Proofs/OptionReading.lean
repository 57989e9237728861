import InfixCalculator.CommandLine.Reader

/-!
# Reading declared options

The program relies on its reader for the options that it declares.  Before any
arguments in which the reader finds something, it finds such an option, written
with a value that the option takes, as one more occurrence.  What it makes of faulty
arguments, or of a request for help, is left open.

Reading from left to right does so.  Seen options matter only to those that cannot be
given again, and whether a value is checked at once or after a look at the next
argument makes no difference where there is no fault.
-/

namespace InfixCalculator.CommandLine

/-! ## Written options -/

/-- A text stands for itself, and a number has its decimal text. -/
inductive Values.Reads : Values → String → Value → Prop
  | text (text : String) : Reads .texts text (.text text)
  | number {least greatest n : Nat} (hleast : least ≤ n) (hgreatest : n ≤ greatest) :
      Reads (.numbers least greatest) n.repr (.number n)

/-- The option takes the next argument whatever it is, or the argument does not look
like an option. -/
def Declaration.TakesNext (declaration : Declaration) (text : String) : Prop :=
  declaration.takesHyphens = true ∨ text.toList.head? ≠ some '-'

/-- The arguments that give an option and the text of its value. -/
inductive Declaration.Writes (declaration : Declaration) (text : String) : List String → Prop
  | long (htakes : declaration.TakesNext text) :
      Writes declaration text ["--" ++ declaration.name, text]
  | short {letter : Char} (hletter : declaration.letter = some letter)
      (htakes : declaration.TakesNext text) :
      Writes declaration text ["-".push letter, text]
  | attached : Writes declaration text ["--" ++ declaration.name ++ "=" ++ text]

/-- The reader finds declared options as they are written, each of them once unless it
repeats. -/
structure Reader.Follows (reader : Reader) (declared : List Declaration) : Prop where
  nothing_given : reader [] = .ok []
  option_given : ∀ {declaration : Declaration} {text : String} {value : Value}
    {written rest : List String} {found : List Occurrence},
    declaration ∈ declared → declaration.Writes text written →
    declaration.values.Reads text value → reader rest = .ok found →
    (declaration.repeats = false → ∀ occurrence ∈ found, occurrence.option ≠ declaration) →
    reader (written ++ rest) = .ok (⟨declaration, value⟩ :: found)

/-! ## The texts of values -/

theorem isDigit_of_mem_repr {n : Nat} {c : Char} (hc : c ∈ n.repr.toList) : c.isDigit = true := by
  rw [Nat.repr, String.toList_ofList] at hc
  exact Nat.isDigit_of_mem_toDigits (by decide) (by decide) hc

theorem exists_repr_eq_cons (n : Nat) : ∃ c digits, n.repr.toList = c :: digits := by
  apply List.exists_cons_of_ne_nil
  rw [Nat.repr, String.toList_ofList]
  exact Nat.toDigits_ne_nil

theorem number?_repr (n : Nat) : number? n.repr = some n := by
  obtain ⟨c, digits, hchars⟩ := exists_repr_eq_cons n
  have hdigits : ∀ d ∈ c :: digits, d.isDigit = true := by
    intro d hd
    rw [← hchars] at hd
    exact isDigit_of_mem_repr hd
  have hvalue : Nat.ofDigitChars 10 (c :: digits) 0 = n := by
    rw [← hchars, Nat.repr, String.toList_ofList, Nat.ofDigitChars_ten_toDigits]
  have hsign : c ≠ '+' := by
    rintro rfl
    exact absurd (hdigits '+' (by simp)) (by decide)
  unfold number?
  rw [hchars]
  split
  next heq => exact absurd (List.cons.inj heq).1 hsign
  next =>
    have hall : (c :: digits).all Char.isDigit = true := List.all_eq_true.mpr hdigits
    simp [hvalue, hall]

theorem Values.Reads.value?_eq {values : Values} {text : String} {value : Value}
    (hreads : values.Reads text value) : values.value? text = some value := by
  cases hreads with
  | text => rfl
  | number hleast hgreatest => simp [value?, number?_repr, hleast, hgreatest]

theorem Declaration.TakesNext.takes_eq {declaration : Declaration} {text : String}
    (htakes : declaration.TakesNext text) : declaration.takes text = true := by
  unfold takes
  rcases htakes with hhyphens | hhead
  · rw [hhyphens, Bool.true_or]
  · split
    next hchars =>
      rw [hchars] at hhead
      exact absurd rfl hhead
    next => exact Bool.or_true _

/-! ## The next option -/

theorem mem_declared_iff {declaration : Declaration} :
    declaration ∈ declared ↔ declaration = evalOption ∨ declaration = historyMaxOption := by
  simp [declared]

namespace Argument

theorem ofString_long {declaration : Declaration} (hmem : declaration ∈ declared) :
    ofString ("--" ++ declaration.name) = option declaration none := by
  revert declaration
  decide

theorem ofString_short {declaration : Declaration} {letter : Char} (hmem : declaration ∈ declared)
    (hletter : declaration.letter = some letter) :
    ofString ("-".push letter) = option declaration none := by
  rcases mem_declared_iff.mp hmem with rfl | rfl
  · cases hletter
    decide
  · cases hletter

theorem ofString_attached {declaration : Declaration} (hmem : declaration ∈ declared)
    (text : String) :
    ofString ("--" ++ declaration.name ++ "=" ++ text) = option declaration (some text) := by
  rcases mem_declared_iff.mp hmem with rfl | rfl
  · simp [ofString, ofChars, ofLong, declared, evalOption]
  · simp [ofString, ofChars, ofLong, declared, evalOption, historyMaxOption]

end Argument

namespace Next

theorem ofArguments_of_fault?_eq_some {arguments : List String} {cause : Misuse}
    (hfault : Argument.fault? arguments = some cause) :
    ofArguments arguments = stop (.misuse cause) := by
  cases arguments with
  | nil => cases hfault
  | cons argument arguments =>
      rw [Argument.fault?] at hfault
      rw [ofArguments]
      cases hargument : Argument.ofString argument with
      | refused =>
          rw [hargument] at hfault
          cases hfault
          rfl
      | terminator =>
          rw [hargument] at hfault
          by_cases hempty : arguments.isEmpty = true
          · simp [hempty] at hfault
          · simp only [hempty] at hfault
            cases hfault
            simp [hempty]
      | _ =>
          rw [hargument] at hfault
          cases hfault

theorem ofArguments_of_writes {declaration : Declaration} {text : String}
    {written rest : List String} (hmem : declaration ∈ declared)
    (hwrites : declaration.Writes text written) (hfault : Argument.fault? rest = none) :
    ofArguments (written ++ rest) = option declaration text rest := by
  cases hwrites with
  | long htakes =>
      simp [ofArguments, Argument.ofString_long hmem, htakes.takes_eq, hfault]
  | short hletter htakes =>
      simp [ofArguments, Argument.ofString_short hmem hletter, htakes.takes_eq, hfault]
  | attached => simp [ofArguments, Argument.ofString_attached hmem]

end Next

/-! ## From left to right -/

namespace Reader

theorem check_eq_ok_iff {seen : List Declaration} {declaration : Declaration} {text : String}
    {value : Value} :
    check seen declaration text = .ok value ↔
      (declaration.repeats = false → declaration ∉ seen) ∧
        declaration.values.value? text = some value := by
  unfold check
  by_cases hagain : declaration.repeats = false ∧ declaration ∈ seen
  · simp [hagain]
  · rw [if_neg hagain, and_iff_right (not_and.mp hagain)]
    cases declaration.values.value? text <;> simp

theorem read_of_nothing {arguments : List String} (hnext : Next.ofArguments arguments = .nothing)
    (seen : List Declaration) : read seen arguments = .ok [] := by
  rw [read]
  split <;> simp_all

theorem read_of_stop {arguments : List String} {stop : Stop}
    (hnext : Next.ofArguments arguments = .stop stop) (seen : List Declaration) :
    read seen arguments = .error stop := by
  rw [read]
  split <;> simp_all

theorem read_of_option {arguments rest : List String} {declaration : Declaration}
    {text : String} {value : Value} {seen : List Declaration}
    (hnext : Next.ofArguments arguments = .option declaration text rest)
    (hcheck : check seen declaration text = .ok value) :
    read seen arguments = (read (declaration :: seen) rest).map (⟨declaration, value⟩ :: ·) := by
  rw [read]
  split
  next hother => simp [hnext] at hother
  next hother => simp [hnext] at hother
  next hother =>
    rw [hnext, Next.option.injEq] at hother
    obtain ⟨rfl, rfl, rfl⟩ := hother
    simp [hcheck]

theorem fault?_eq_none_of_read {seen : List Declaration} {arguments : List String}
    {found : List Occurrence} (hread : read seen arguments = .ok found) :
    Argument.fault? arguments = none := by
  rw [Option.eq_none_iff_forall_ne_some]
  intro cause hfault
  rw [read_of_stop (Next.ofArguments_of_fault?_eq_some hfault)] at hread
  cases hread

/-- Other options seen before make no difference if they repeat or are not found. -/
theorem read_of_seen {seen others : List Declaration} {arguments : List String}
    {found : List Occurrence} (hread : read seen arguments = .ok found)
    (hothers : ∀ declaration ∈ others, declaration.repeats = false →
      declaration ∈ seen ∨ ∀ occurrence ∈ found, occurrence.option ≠ declaration) :
    read others arguments = .ok found := by
  fun_induction read seen arguments generalizing others found with
  | case1 seen arguments hnext => rw [read_of_nothing hnext, hread]
  | case2 => cases hread
  | case3 => cases hread
  | case4 seen arguments declaration text rest hnext _ value hcheck ih =>
      obtain ⟨later, hlater, rfl⟩ : ∃ later, read (declaration :: seen) rest = .ok later ∧
          ⟨declaration, value⟩ :: later = found := by
        cases hrest : read (declaration :: seen) rest with
        | error => simp [hrest, Except.map] at hread
        | ok later => exact ⟨later, rfl, by simpa [hrest, Except.map] using hread⟩
      obtain ⟨hfree, hvalue⟩ := check_eq_ok_iff.mp hcheck
      -- The option is among those found, so it was not seen before if it cannot repeat.
      have hagain : declaration.repeats = false → declaration ∉ others := by
        intro honce hmem
        rcases hothers declaration hmem honce with hseen | hfound
        · exact hfree honce hseen
        · exact hfound ⟨declaration, value⟩ (by simp) rfl
      have hrest : read (declaration :: others) rest = .ok later := by
        apply ih hlater
        intro other hmem honce
        rcases List.mem_cons.mp hmem with rfl | hother
        · exact Or.inl List.mem_cons_self
        · exact (hothers other hother honce).imp (List.mem_cons_of_mem _)
            fun hfound occurrence hoccurrence =>
              hfound occurrence (List.mem_cons_of_mem _ hoccurrence)
      rw [read_of_option hnext (check_eq_ok_iff.mpr ⟨hagain, hvalue⟩), hrest]
      rfl

theorem leftToRight_follows : leftToRight.Follows declared where
  nothing_given := read_of_nothing rfl []
  option_given := by
    intro declaration text value written rest found hmem hwrites hreads hrest hfirst
    have hnext := Next.ofArguments_of_writes hmem hwrites (fault?_eq_none_of_read hrest)
    have hcheck : check [] declaration text = .ok value :=
      check_eq_ok_iff.mpr ⟨fun _ => List.not_mem_nil, hreads.value?_eq⟩
    have hkept : read [declaration] rest = .ok found := by
      apply read_of_seen hrest
      intro other hother honce
      rw [List.mem_singleton.mp hother] at honce ⊢
      exact Or.inr (hfirst honce)
    rw [leftToRight, read_of_option hnext hcheck, hkept]
    rfl

end Reader
end InfixCalculator.CommandLine
