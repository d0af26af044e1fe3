import JudgeLoom.Worker.Account

/-!
# The contents that reach the sandbox

The worker hands the files of a package to go-judge inside a JSON request, as text.
Text is valid UTF-8, so `json.Marshal` replaces what is not, and the sandbox works on
other bytes than those whose hash the worker has verified.  `delivered_iff` says for
each kind of command exactly when go-judge decodes the bytes it was meant to get: when
the files of the package are valid UTF-8.  What a participant printed is, because it
came out of a JSON reply.
-/

namespace JudgeLoom.Go

open Utf8 (encode)
open Interaction.Fallible

/-! ## One request -/

/-- The content that go-judge decodes; a cached file has none in the request. -/
def CmdFile.decoded : CmdFile → Option Bytes
  | content text => some (encode text)
  | fileID _ => none

/-- Decoding the command gives back the standard input and the files of `spec`. -/
def RunSpec.Delivers (spec : RunSpec) (command : CmdSpec) : Prop :=
  command.stdIn.bind CmdFile.decoded = some spec.stdIn ∧
    ∀ file ∈ spec.copyIn, ∃ sent ∈ command.copyIn,
      sent.1 = file.1 ∧ sent.2.decoded = some file.2

/-- Every request that `GoJudge.Run` makes for `spec` delivers it. -/
def RunSpec.Delivered (spec : RunSpec) : Prop :=
  ∀ call transcript result, (GoJudge.run call spec).Yields transcript result →
    ∃ command exchange, transcript = [⟨.post call [command], exchange⟩] ∧ spec.Delivers command

/-- The byte strings of a command that travel inside its request. -/
def RunSpec.contents (spec : RunSpec) : List Bytes := spec.stdIn :: spec.copyIn.map Prod.snd

/-- A content survives the request exactly if it is text. -/
theorem decoded_memoryInput {content data : Bytes} :
    (memoryInput content).decoded = some data ↔ encode (Utf8.decode content) = data :=
  Option.some_inj

theorem RunSpec.delivers_runCommand_iff {spec : RunSpec} :
    spec.Delivers (runCommand spec (some (memoryInput spec.stdIn))) ↔
      ∀ data ∈ spec.contents, Utf8.Valid data := by
  constructor
  · rintro ⟨hstdIn, hfiles⟩ data hdata
    rcases List.mem_cons.mp hdata with rfl | hdata
    · exact Utf8.encode_decode_iff.mp (decoded_memoryInput.mp hstdIn)
    · obtain ⟨file, hfile, rfl⟩ := List.mem_map.mp hdata
      obtain ⟨sent, -, -, hdecoded⟩ := hfiles file hfile
      -- whatever was sent as a content is text, under this name or another
      cases hsent : sent.2 with
      | content text =>
          rw [hsent] at hdecoded
          exact ⟨text, (Option.some.inj hdecoded).symm⟩
      | fileID id =>
          rw [hsent] at hdecoded
          cases hdecoded
  · intro h
    refine ⟨?_, fun file hfile => ?_⟩
    · exact decoded_memoryInput.mpr (Utf8.encode_decode_iff.mpr (h _ List.mem_cons_self))
    · refine ⟨(file.1, memoryInput file.2), ?_, rfl, ?_⟩
      · exact List.mem_append_left _ (List.mem_map_of_mem hfile)
      · have hdata : file.2 ∈ spec.contents :=
          List.mem_cons_of_mem _ (List.mem_map_of_mem hfile)
        exact decoded_memoryInput.mpr (Utf8.encode_decode_iff.mpr (h _ hdata))

theorem RunSpec.delivered_iff_valid {spec : RunSpec} :
    spec.Delivered ↔ ∀ data ∈ spec.contents, Utf8.Valid data := by
  rw [← delivers_runCommand_iff]
  constructor
  · intro h
    have hrun : (GoJudge.run { purpose := .run, caseNumber := 0 } spec).Yields _ _ :=
      GoJudge.yields_run.mpr ⟨{ first := .failed [] }, rfl, rfl⟩
    obtain ⟨command, exchange, htranscript, hdelivers⟩ := h _ _ _ hrun
    cases htranscript
    exact hdelivers
  · intro h call transcript result hrun
    obtain ⟨exchange, htranscript, -⟩ := GoJudge.yields_run.mp hrun
    exact ⟨_, exchange, htranscript, h⟩

/-! ## Texts of the worker -/

theorem valid_encode (text : String) : Utf8.Valid (encode text) := ⟨text, rfl⟩

theorem valid_nil : Utf8.Valid [] := ⟨"", rfl⟩

/-- What go-judge reports as the output of a program is text. -/
theorem valid_stdout (exchange : Exchange) : Utf8.Valid (GoJudge.runResult exchange).stdout := by
  unfold GoJudge.runResult
  split
  · exact valid_nil
  · exact valid_nil
  · exact valid_encode _

/-- `prepared` is what `Prepare` made of a participant's source. -/
def Prepared (prepared : RunSpec) : Prop :=
  ∃ caseNumber language source memoryLimit transcript,
    (Runner.prepare caseNumber language source memoryLimit).run.Yields transcript (.ok prepared)

theorem getLanguage_copyIn {key : String} {profile : Profile} (h : getLanguage key = some profile) :
    profile.run.copyIn = [] := by
  unfold getLanguage at h
  split at h
  all_goals cases h <;> rfl

/-- The only file of a prepared command is the source. -/
theorem Prepared.valid_copyIn {prepared : RunSpec} (h : Prepared prepared) :
    ∀ file ∈ prepared.copyIn, Utf8.Valid file.2 := by
  obtain ⟨caseNumber, language, source, memoryLimit, transcript, h⟩ := h
  unfold Runner.prepare at h
  split at h
  · cases (yields_throw.mp h).2
  · next profile hprofile =>
      split at h
      · obtain ⟨-, heq⟩ := yields_pure.mp h
        cases heq
        intro file hfile
        rw [List.mem_singleton.mp hfile]
        exact valid_encode source
      · rw [yields_bind_ok] at h
        obtain ⟨_, _, _, -, -, h⟩ := h
        rw [yields_bind_ok] at h
        obtain ⟨_, _, _, -, -, h⟩ := h
        obtain ⟨-, heq⟩ := yields_pure.mp h
        cases heq
        intro file hfile
        replace hfile : file ∈ profile.run.copyIn := hfile
        rw [getLanguage_copyIn hprofile] at hfile
        cases hfile

/-! ## The commands that get files of a package -/

/-- A command that the worker runs on files of a package. -/
inductive Use
  /-- The participant, on the input of a case. -/
  | run (prepared : RunSpec) (isPrepared : Prepared prepared) (input : Bytes)
      (timeLimit memoryLimit : ℤ)
  /-- A checker, on the input, the answer and what the participant's run printed. -/
  | check (fileID : String) (input answer : Bytes) (participant : Exchange)
      (timeLimit memoryLimit : ℤ)
  /-- The validator, on the input of a case. -/
  | validate (fileID : String) (input : Bytes) (timeLimit memoryLimit : ℤ)

namespace Use

/-- The command as the worker builds it. -/
def spec : Use → RunSpec
  | run prepared _ input timeLimit memoryLimit =>
      Runner.preparedSpec prepared input timeLimit memoryLimit
  | check fileID input answer participant timeLimit memoryLimit =>
      Checker.checkSpec fileID input answer (GoJudge.runResult participant).stdout timeLimit
        memoryLimit
  | validate fileID input timeLimit memoryLimit =>
      Checker.programSpec "validator" fileID [] input [] (Checker.checkerTimeLimit timeLimit)
        memoryLimit

/-- The files of the package that the command works on. -/
def files : Use → List Bytes
  | run _ _ input _ _ => [input]
  | check _ input answer _ _ _ => [input, answer]
  | validate _ input _ _ => [input]

/-- The sandbox gets the bytes of a command's files, wherever they stand in the request,
if and only if the files are valid UTF-8. -/
theorem delivered_iff (use : Use) :
    use.spec.Delivered ↔ ∀ data ∈ use.files, Utf8.Valid data := by
  rw [RunSpec.delivered_iff_valid]
  cases use with
  | run prepared isPrepared input timeLimit memoryLimit =>
      have hcopyIn : ∀ data ∈ prepared.copyIn.map Prod.snd, Utf8.Valid data := by
        intro data hdata
        obtain ⟨file, hfile, rfl⟩ := List.mem_map.mp hdata
        exact isPrepared.valid_copyIn file hfile
      change (∀ data ∈ input :: prepared.copyIn.map Prod.snd, _) ↔ ∀ data ∈ [input], _
      rw [List.forall_mem_cons, List.forall_mem_singleton]
      exact and_iff_left hcopyIn
  | check fileID input answer participant timeLimit memoryLimit =>
      change (∀ data ∈ [[], input, answer, (GoJudge.runResult participant).stdout], _) ↔
        ∀ data ∈ [input, answer], _
      simp only [List.forall_mem_cons, List.not_mem_nil, false_imp_iff, implies_true, and_true]
      have hstdout := valid_stdout participant
      constructor
      · rintro ⟨-, hinput, hanswer, -⟩
        exact ⟨hinput, hanswer⟩
      · rintro ⟨hinput, hanswer⟩
        exact ⟨valid_nil, hinput, hanswer, hstdout⟩
  | validate fileID input timeLimit memoryLimit =>
      change (∀ data ∈ [input], _) ↔ ∀ data ∈ [input], _
      exact Iff.rfl

/-- A case input of one byte that is not ASCII reaches a Python program as another text. -/
theorem not_delivered_byte :
    ∃ (prepared : RunSpec) (isPrepared : Prepared prepared),
      ¬ (run prepared isPrepared [0xff] second 0).spec.Delivered := by
  have hprepared : Prepared {
      args := ["python3", "main.py"]
      env := Runner.environment
      copyIn := [("main.py", [])] } :=
    ⟨1, "PY3", "", 0, [], yields_pure.mpr ⟨rfl, rfl⟩⟩
  refine ⟨_, hprepared, fun h => ?_⟩
  have hvalid := RunSpec.delivered_iff_valid.mp h [0xff] List.mem_cons_self
  rw [← Utf8.encode_decode_iff] at hvalid
  exact absurd hvalid (by decide)

end Use

end JudgeLoom.Go
