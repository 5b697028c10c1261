namespace KeySubst

inductive SystemError where
  | notFound
  | alreadyExists
  | notDirectory
  | isDirectory
  | nameTooLong
  | notUtf8
  | other (text : String)
  deriving DecidableEq, Repr

def SystemError.message : SystemError → String
  | notFound => "No such file or directory (os error 2)"
  | alreadyExists => "File exists (os error 17)"
  | notDirectory => "Not a directory (os error 20)"
  | isDirectory => "Is a directory (os error 21)"
  | nameTooLong => "File name too long (os error 36)"
  | notUtf8 => "stream did not contain valid UTF-8"
  | other text => text

end KeySubst
