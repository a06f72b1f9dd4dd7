import DatalogClient.Schema.Catalog

/-!
# Commands

What a user can ask the program for, and what goes with every command.

## Main definitions

* `Command` — what is asked for
* `Invocation` — a command with the options of every command
* `Surroundings` — what stands in for options that are not given
-/

namespace DatalogClient

/-- How the entries of a schema are to be listed. -/
structure ListingOptions where
  search : Option String := none
  onlyUnique : Bool := false
  onlyComponents : Bool := false
  noIdent : Bool := false
  noFunction : Bool := false
  noAttribute : Bool := false
  /-- Numbers take the place of the list. -/
  stats : Bool := false
deriving DecidableEq

/-- The entries that are to be listed. -/
def ListingOptions.filter (o : ListingOptions) : SchemaFilter :=
  let f : SchemaFilter :=
    { showIdent := !o.noIdent
      showFunction := !o.noFunction
      showAttribute := !o.noAttribute
      onlyUnique := o.onlyUnique
      onlyComponents := o.onlyComponents }
  match o.search with
  | some term => f.withSearch term
  | none => f

/-- What is asked for. Documents are in files, or in the standard input where the file is a
dash. -/
inductive Command where
  /-- Check a document. -/
  | validate (file : String)
  /-- Submit a document, with further arguments if there are some. -/
  | run (file : String) (args : Option String) (skipValidation : Bool)
  /-- Have a document translated. -/
  | translate (file : String)
  /-- List the schema. -/
  | schema (options : ListingOptions)
  /-- Show the settings. -/
  | config
  /-- Take documents and commands line by line. -/
  | shell
deriving DecidableEq

/-- A command with the options of every command. -/
structure Invocation where
  command : Command
  verbose : Bool := false
  config : String := "dq.toml"
  apiUrl : Option String := none
deriving DecidableEq

/-- What stands in for options that are not given. -/
structure Surroundings where
  config : Option String := none
  apiUrl : Option String := none

end DatalogClient
