import SampleTypes.CommandLine.Session
import SampleTypes.Proofs.Conversion

/-! The job that a command line stands for. Every parameter comes from one option or has its default, and
only the output is another when an output is named. -/

namespace SampleTypes.CommandLine

variable {temporaries : Temporaries} {options : List (String × Value)} {out : String}

theorem lookup_bind (sources : Sources) (parameter : String) {bindings : List (String × Binding)}
    (distinct : (Entries.keys bindings).Nodup) :
    (bind sources bindings).lookup parameter = (bindings.lookup parameter).bind (·.value? sources) :=
  Entries.lookup_filterMap (Binding.value? sources) parameter distinct

/-- A flag that turns something off leaves it on unless it is set. -/
def isOn (options : List (String × Value)) (name : String) : Bool :=
  asFlag ((options.lookup name).map fun v => .bool (isOff v))

def jobTo (out : String) (temporaries : Temporaries) (options : List (String × Value)) : Job :=
  { sources := asSources (inputOf temporaries options)
    out
    typeName := ((options.lookup "name").bind asText).getD defaultTypeName
    options :=
      { alphabetizeFields := isOn options "no_alphabetize"
        explicitUnions := isOn options "loose_unions"
        widenIntegers := isOn options "no_widen_int_to_float" }
    limit := asInteger (options.lookup "sample_size")
    splitRootArray := isOn options "keep_root_array" }

theorem asText_string (text : String) : asText (.string text) = some text := Str.string?_ofString text

theorem nodup_parameters : (Entries.keys json2ts.parameters).Nodup := by decide

theorem value?_output {input : Value} (nonempty : out ≠ "") :
    Binding.value? ⟨options, input, some out⟩ .output = some (.string out) := by
  simp only [Binding.value?]

theorem jobFor_json2ts (named : (outOf options).getD temporaries.output = out) (nonempty : out ≠ "") :
    jobFor temporaries json2ts options = .ok (jobTo out temporaries options) := by
  have output : json2ts.parameters.lookup "ts_file_path" = some .output := by decide
  simp only [jobFor, jobOf, named, lookup_bind _ _ nodup_parameters, output, Option.bind_some,
    value?_output nonempty, asText_string]
  rfl

theorem ne_empty_of_suffix (file : ".ts".toList.isSuffixOf out.toList = true) : out ≠ "" := by
  rintro rfl
  exact absurd file (by decide)

theorem jobFor_of_unnamed (unnamed : outOf options = none)
    (file : ".ts".toList.isSuffixOf temporaries.output.toList = true) :
    jobFor temporaries json2ts options = .ok (jobTo temporaries.output temporaries options) :=
  jobFor_json2ts (by rw [unnamed]; rfl) (ne_empty_of_suffix file)

theorem jobFor_of_named (named : outOf options = some out)
    (file : ".ts".toList.isSuffixOf out.toList = true) :
    jobFor temporaries json2ts options = .ok (jobTo out temporaries options) :=
  jobFor_json2ts (by rw [named]; rfl) (ne_empty_of_suffix file)

theorem declares_jobTo (out other : String) {world : World} {blocks : List Points} :
    (jobTo out temporaries options).Declares world blocks ↔
      (jobTo other temporaries options).Declares world blocks :=
  ⟨fun ⟨sources, samples, nonempty⟩ => ⟨sources, samples, nonempty⟩,
    fun ⟨sources, samples, nonempty⟩ => ⟨sources, samples, nonempty⟩⟩

/-! Another output changes nothing else. -/

theorem jobTo_put_out (out : String) (v : Value) :
    jobTo out temporaries (Entries.put "out" v options) = jobTo out temporaries options := by
  simp [jobTo, inputOf, isOn, Entries.lookup_put]

theorem usesStdin_put_out (v : Value) :
    usesStdin (Entries.put "out" v options) = usesStdin options := by
  simp [usesStdin, Entries.lookup_put]

theorem outOf_put_out (options : List (String × Value)) (text : String) :
    outOf (Entries.put "out" (.string text) options) = some text := by
  simp [outOf, Entries.lookup_put, asText]

end SampleTypes.CommandLine
