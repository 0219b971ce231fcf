import CellMachine.Command.Arguments

/-!
# What the arguments of a command ask for

The arguments are read one after the other, and each of them changes one field of the options, up
to the first that is out of order or asks for help or for the version. The statistics are asked for
by one word, which is a flag only as long as no `--` has come before it. An argument that asks for
more detail in the log has no part in anything else: without it the command runs the same image, or
stops at the same mistake.
-/

namespace CellMachine.Command.Options

/-- The options, without the detail that is asked for. -/
def plain (options : Options) : Options :=
  { options with verbosity := 0 }

/-- Whether an argument does nothing but ask for more detail in the log. -/
def asksForDetail (argument : String) : Bool :=
  argument = "--verbose" ||
    match argument.toList with
    | '-' :: 'v' :: letters => letters.all (· = 'v')
    | _ => false

/-- The arguments without those that ask for more detail. After `--` there are none. -/
def withoutDetail : List String → List String
  | [] => []
  | argument :: rest =>
    if argument = "--" then argument :: rest
    else if asksForDetail argument then withoutDetail rest
    else argument :: withoutDetail rest

variable {options options' : Options} {argument : String}

/-- What is done in two parts ends well if both parts do. -/
theorem exists_of_bind_eq_ok {first : Except Stop Options} {next : Options → Except Stop Options}
    (h : (first >>= next) = .ok options) :
    ∃ middle, first = .ok middle ∧ next middle = .ok options := by
  cases first with
  | ok middle => exact ⟨middle, rfl, h⟩
  | error stop => simp [bind, Except.bind] at h

/-! ## The argument that decides -/

theorem takeAll_append {before rest : List String} (hend : "--" ∉ before)
    (h : before.foldlM take options = .ok options') :
    options.takeAll (before ++ rest) = options'.takeAll rest := by
  induction before generalizing options with
  | nil => rw [List.nil_append, Except.ok.inj h]
  | cons argument before ih =>
    rw [List.mem_cons, not_or] at hend
    obtain ⟨next, hnext, hrest⟩ := exists_of_bind_eq_ok h
    rw [List.cons_append, takeAll, if_neg (Ne.symm hend.1), hnext]
    exact ih hend.2 hrest

/-- The first argument that is out of order, or that asks for help or for the version, decides, and
nothing after it matters. -/
theorem parse_of_stop {before after : List String} {stop : Stop} (hend : "--" ∉ before)
    (hbefore : before.foldlM take {} = .ok options) (hargument : argument ≠ "--")
    (hstop : options.take argument = .error stop) :
    parse (before ++ argument :: after) = .error stop := by
  rw [parse, takeAll_append hend hbefore, takeAll, if_neg hargument, hstop]
  rfl

example : parse ["--stats", "-vh", "--stats"] = .error .help :=
  rfl

/-! ## The flag for the statistics -/

theorem statistics_takePath {path : String} (h : options.takePath path = .ok options') :
    options'.statistics = options.statistics := by
  rw [takePath] at h
  split at h
  · simp at h
  · split at h
    · rw [← Except.ok.inj h]
    · simp at h

theorem statistics_takeLetters {letters : List Char}
    (h : options.takeLetters letters = .ok options') :
    options'.statistics = options.statistics := by
  fun_induction takeLetters options letters with
  | case1 options => rw [← Except.ok.inj h]
  | case2 options rest ih => exact ih h
  | case3 | case4 | case5 => simp at h

theorem statistics_takeWord (h : options.takeWord argument = .ok options') :
    options'.statistics = true ↔ options.statistics = true ∨ argument = "--stats" := by
  rw [takeWord] at h
  split at h
  · rename_i hword
    split at h
    · simp at h
    · rw [← Except.ok.inj h]
      simp [hword]
  · rename_i hword
    split at h
    · rw [← Except.ok.inj h]
      simp [moreDetail, hword]
    · split at h
      · simp at h
      · split at h <;> simp at h

theorem statistics_take (h : options.take argument = .ok options') :
    options'.statistics = true ↔ options.statistics = true ∨ argument = "--stats" := by
  have hother (hhyphens : ∀ tail, argument.toList = '-' :: '-' :: tail → False) :
      argument ≠ "--stats" := by
    rintro rfl
    exact hhyphens "stats".toList rfl
  rw [take] at h
  split at h
  · exact statistics_takeWord h
  · rename_i c letters hc hchars
    have hone : argument ≠ "--stats" := by
      refine hother fun tail htail => hc ?_
      rw [hchars] at htail
      exact (List.cons.inj (List.cons.inj htail).2).1
    rw [statistics_takeLetters h]
    simp [hone]
  · rename_i hhyphens _
    rw [statistics_takePath h]
    simp [hother hhyphens]

theorem statistics_takePaths {paths : List String}
    (h : paths.foldlM takePath options = .ok options') :
    options'.statistics = options.statistics := by
  induction paths generalizing options with
  | nil => rw [← Except.ok.inj h]
  | cons path paths ih =>
    obtain ⟨next, hnext, hrest⟩ := exists_of_bind_eq_ok h
    rw [ih hrest, statistics_takePath hnext]

theorem statistics_takeAll {arguments : List String}
    (h : options.takeAll arguments = .ok options') :
    options'.statistics = true ↔
      options.statistics = true ∨ "--stats" ∈ arguments.takeWhile (· ≠ "--") := by
  induction arguments generalizing options with
  | nil =>
    rw [← Except.ok.inj h]
    simp
  | cons argument rest ih =>
    rw [takeAll] at h
    split at h
    · rename_i hend
      rw [statistics_takePaths h]
      simp [hend]
    · rename_i hgo
      obtain ⟨next, hnext, hrest⟩ := exists_of_bind_eq_ok h
      rw [ih hrest, statistics_take hnext, List.takeWhile_cons_of_pos (by simpa using hgo),
        List.mem_cons, eq_comm (a := argument), or_assoc]

/-- The statistics are asked for by a flag in front of any `--`. -/
theorem statistics_parse {arguments : List String} (h : parse arguments = .ok options) :
    options.statistics = true ↔ "--stats" ∈ arguments.takeWhile (· ≠ "--") := by
  rw [statistics_takeAll h]
  simp

/-! ## Flags for more detail -/

theorem plain_eq_iff :
    options'.plain = options.plain ↔
      options'.image = options.image ∧ options'.statistics = options.statistics := by
  simp [plain]

/-- Two ways of reading arguments come to the same, but for the detail that they ask for. -/
def Agree (first second : Except Stop Options) : Prop :=
  second.map plain = first.map plain

theorem Agree.cases {first second : Except Stop Options} (h : Agree first second) :
    (∃ stop, first = .error stop ∧ second = .error stop) ∨
      ∃ options options', first = .ok options ∧ second = .ok options' ∧
        options'.plain = options.plain := by
  cases first with
  | error stop =>
    cases second with
    | error other =>
      obtain rfl : other = stop := Except.error.inj h
      exact .inl ⟨other, rfl, rfl⟩
    | ok options' => simp [Agree, Except.map] at h
  | ok options =>
    cases second with
    | error other => simp [Agree, Except.map] at h
    | ok options' => exact .inr ⟨options, options', rfl, rfl, Except.ok.inj h⟩

theorem Agree.bind {first second : Except Stop Options} {f g : Options → Except Stop Options}
    (h : Agree first second)
    (hnext : ∀ options options' : Options, options'.plain = options.plain →
      Agree (f options) (g options')) : Agree (first >>= f) (second >>= g) := by
  rcases h.cases with ⟨stop, rfl, rfl⟩ | ⟨options, options', rfl, rfl, hplain⟩
  · rfl
  · exact hnext options options' hplain

theorem agree_takePath (h : options'.plain = options.plain) (path : String) :
    Agree (options.takePath path) (options'.takePath path) := by
  obtain ⟨himage, hstatistics⟩ := plain_eq_iff.mp h
  rw [takePath, takePath, himage]
  split
  · rfl
  · split
    · simp [Agree, Except.map, plain, hstatistics]
    · rfl

theorem agree_takeLetters (h : options'.plain = options.plain) (letters : List Char) :
    Agree (options.takeLetters letters) (options'.takeLetters letters) := by
  fun_induction takeLetters options letters generalizing options' with
  | case1 options => simp [Agree, Except.map, takeLetters, h]
  | case2 options rest ih => exact ih h
  | case3 options rest => rfl
  | case4 options rest => rfl
  | case5 options c rest hdetail hhelp hversion =>
    rw [takeLetters]
    · rfl
    · exact hdetail
    · exact hhelp
    · exact hversion

theorem agree_takeWord (h : options'.plain = options.plain) (argument : String) :
    Agree (options.takeWord argument) (options'.takeWord argument) := by
  obtain ⟨himage, hstatistics⟩ := plain_eq_iff.mp h
  rw [takeWord, takeWord, hstatistics]
  split
  · split
    · rfl
    · simp [Agree, Except.map, plain, himage]
  · split
    · simp [Agree, Except.map, plain, moreDetail, himage, hstatistics]
    · split
      · rfl
      · split <;> rfl

theorem agree_take (h : options'.plain = options.plain) (argument : String) :
    Agree (options.take argument) (options'.take argument) := by
  rw [take, take]
  split
  · exact agree_takeWord h argument
  · exact agree_takeLetters h _
  · exact agree_takePath h argument

theorem agree_takePaths (h : options'.plain = options.plain) (paths : List String) :
    Agree (paths.foldlM takePath options) (paths.foldlM takePath options') := by
  induction paths generalizing options options' with
  | nil => exact congrArg Except.ok h
  | cons path paths ih =>
    rw [List.foldlM_cons, List.foldlM_cons]
    exact (agree_takePath h path).bind fun _ _ => ih

/-- An argument that asks for detail changes nothing else. -/
theorem take_of_asksForDetail (h : asksForDetail argument = true) (options : Options) :
    ∃ next, options.take argument = .ok next ∧ next.plain = options.plain := by
  have hletters (letters : List Char) (hall : letters.all (· = 'v') = true) (options : Options) :
      ∃ next, options.takeLetters letters = .ok next ∧ next.plain = options.plain := by
    induction letters generalizing options with
    | nil => exact ⟨options, rfl, rfl⟩
    | cons c letters ih =>
      obtain ⟨rfl, hall⟩ : c = 'v' ∧ letters.all (· = 'v') = true := by simpa using hall
      exact ih hall options.moreDetail
  rw [asksForDetail, Bool.or_eq_true, decide_eq_true_eq] at h
  rcases h with rfl | hshort
  · exact ⟨options.moreDetail, rfl, rfl⟩
  · split at hshort
    · rename_i letters hchars
      simp only [take, hchars]
      exact hletters ('v' :: letters) (by simpa using hshort) options
    · simp at hshort

/-- Without the arguments that ask for detail, the others are read as before. -/
theorem agree_withoutDetail (h : options'.plain = options.plain) (arguments : List String) :
    Agree (options.takeAll arguments) (options'.takeAll (withoutDetail arguments)) := by
  induction arguments generalizing options options' with
  | nil => exact congrArg Except.ok h
  | cons argument rest ih =>
    rw [withoutDetail]
    split
    · rename_i hend
      rw [takeAll, takeAll, if_pos hend, if_pos hend]
      exact agree_takePaths h rest
    · rename_i hgo
      split
      · rename_i hdetail
        obtain ⟨next, hnext, hplain⟩ := take_of_asksForDetail hdetail options
        rw [takeAll, if_neg hgo, hnext]
        exact ih (h.trans hplain.symm)
      · rw [takeAll, takeAll, if_neg hgo, if_neg hgo]
        exact (agree_take h argument).bind fun _ _ => ih

/-- Arguments that differ only in those that ask for detail make the same mistake, or ask for the
same image and for the statistics alike. -/
theorem parse_of_withoutDetail_eq {arguments arguments' : List String}
    (h : withoutDetail arguments' = withoutDetail arguments) :
    (∃ stop, parse arguments = .error stop ∧ parse arguments' = .error stop) ∨
      ∃ options options', parse arguments = .ok options ∧ parse arguments' = .ok options' ∧
        options'.image = options.image ∧ options'.statistics = options.statistics := by
  have hfirst : Agree (parse arguments) (takeAll {} (withoutDetail arguments)) :=
    agree_withoutDetail rfl arguments
  have hsecond : Agree (parse arguments') (takeAll {} (withoutDetail arguments')) :=
    agree_withoutDetail rfl arguments'
  rw [h] at hsecond
  have hagree : Agree (parse arguments) (parse arguments') := hsecond.symm.trans hfirst
  rcases hagree.cases with hstop | ⟨options, options', hparse, hparse', hplain⟩
  · exact .inl hstop
  · exact .inr ⟨options, options', hparse, hparse', plain_eq_iff.mp hplain⟩

end CellMachine.Command.Options
