import Eafcc.Text

namespace Eafcc

/-! # Errors and panics -/

abbrev Bytes := ByteArray

/-- How a call that does not return a value ends. -/
inductive Failure (ε : Type) where
  | error (reason : ε)
  | panic
deriving Repr, DecidableEq

/-- The outcome of source code that returns a `Result` and may panic. -/
abbrev Rust (ε α : Type) := Except (Failure ε) α

def Rust.fail {ε α : Type} (reason : ε) : Rust ε α := .error (.error reason)

def Rust.panics {ε α : Type} : Rust ε α := .error .panic

/-- The conversion that `?` applies to the error of a result. -/
def Rust.mapError {ε δ α : Type} (convert : ε → δ) : Rust ε α → Rust δ α
  | .ok value => .ok value
  | .error (.error reason) => .error (.error (convert reason))
  | .error .panic => .error .panic

theorem Rust.mapError_eq_ok {ε δ α : Type} {convert : ε → δ} {result : Rust ε α} {value : α} :
    Rust.mapError convert result = .ok value ↔ result = .ok value := by
  match result with
  | .ok _ | .error (.error _) | .error .panic => simp [Rust.mapError]

/-- A result without the text of its error. -/
def Rust.kind {ε α : Type} (result : Rust ε α) : Rust Unit α := Rust.mapError (fun _ => ()) result

theorem Rust.kind_eq_ok {ε α : Type} {result : Rust ε α} {value : α} :
    Rust.kind result = .ok value ↔ result = .ok value := Rust.mapError_eq_ok

theorem Rust.kind_eq_panic {ε α : Type} {result : Rust ε α} :
    Rust.kind result = .error .panic ↔ result = .error .panic := by
  match result with
  | .ok _ | .error (.error _) | .error .panic => simp [Rust.kind, Rust.mapError]

theorem Rust.kind_mapError {ε δ α : Type} (convert : ε → δ) (result : Rust ε α) :
    Rust.kind (Rust.mapError convert result) = Rust.kind result := by
  match result with
  | .ok _ | .error (.error _) | .error .panic => rfl

/-- The text of an error of `serde_json`. -/
abbrev SerdeError := Str

/-- The text of an error of `git2`. -/
abbrev Git2Error := Str

inductive IOErrorKind where
  | notFound
  | notADirectory
  | isADirectory
  | permissionDenied
  | other
deriving Repr, DecidableEq

structure IOError where
  kind : IOErrorKind
  message : Str
deriving Repr, DecidableEq

inductive DataLoaderError where
  | specParseError (message : Str)
  | unmarshalError (cause : SerdeError)
deriving Repr, DecidableEq

mutual
/-- The errors of a storage backend that the default walk and the two backends
raise. -/
inductive StorageBackendError where
  | ioError (cause : IOError)
  | git2Error (cause : Git2Error)
  | walkDirError (cause : WalkDirError)
  | utf8Error
  | stripPrefixError

inductive WalkDirError where
  | storageBackendError (cause : StorageBackendError)
  | dataLoaderError (cause : DataLoaderError)
end

inductive MemoryIndexError where
  | dataLoaderError (cause : DataLoaderError)
  | storageBackendError (cause : StorageBackendError)
  | namespaceNotAbsolutePath

end Eafcc
