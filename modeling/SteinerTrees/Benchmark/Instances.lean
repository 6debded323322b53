import SteinerTrees.Generator.Basic
import SteinerTrees.Log
import SteinerTrees.Settings.Model

/-! # Instances of a benchmark

The instances of a benchmark are generated size by size, each size a number of times with ascending seeds,
and are named after what they were generated from. Given instances follow; those without a name are
numbered by their place. -/

namespace SteinerTrees

/-- An instance of a benchmark, by its entries. -/
abbrev Problem := List (String × Value)

namespace BenchmarkInstances

/-- The name of a generated instance. -/
def generatedName (settings : GeneratorSettings) (size : Int) (number : Nat) : String :=
  s!"{settings.type}_n{size}_t{settings.numTerminals}_{number}"

/-- Whether the name of a generated instance can be written. -/
def isNamed (settings : GeneratorSettings) (size : Int) : Bool :=
  Decimal.isWritable size && Decimal.isWritable settings.numTerminals

/-- The parameters of the instance with a given number. -/
def paramsAt (settings : GeneratorSettings) (number : Nat) : Except Failure (List (String × Value)) := do
  let seed ← ((Value.lookup? "seed" settings.params).getD (.int 0)).plus number
  return Value.setEntry "seed" seed (Value.setEntry "num_terminals" (.int settings.numTerminals) settings.params)

def generateOne (kind : GeneratorKind) (settings : GeneratorSettings) (place : Int × Nat) :
    Except Failure Problem := do
  let (size, number) := place
  let generated ← Generated.generate kind 0 (.int size) (← paramsAt settings number)
  if !isNamed settings size then throw .unwritable
  return generated.entries ++ [("instance_name", .text (generatedName settings size number))]

/-- The sizes to generate, each with the numbers of its instances. -/
def places (settings : GeneratorSettings) : List (Int × Nat) :=
  settings.sizes.flatMap fun size => (List.range settings.countPerSize.toNat).map fun number => (size, number)

def generateAll (settings : GeneratorSettings) : Except Failure (List Problem) := do
  let kind ← GeneratorKind.ofName (.text settings.type)
  (places settings).mapM (generateOne kind settings)

/-- Gives a name to the given instance at a place, unless it has one. -/
def nameCustom (entry : Problem × Nat) : Problem :=
  Value.setDefault "instance_name" (.text s!"custom_{entry.2}") entry.1

end BenchmarkInstances

/-- All instances of a benchmark. -/
def InstanceSettings.build (settings : InstanceSettings) : Except Failure (List Problem) := do
  let generated ← settings.generators.mapM BenchmarkInstances.generateAll
  return generated.flatten ++ settings.customInstances.zipIdx.map BenchmarkInstances.nameCustom

def generatedEntry (problems : List Problem) : LogEntry := ⟨.info, s!"Generated {problems.length} instances"⟩

end SteinerTrees
