import IndexFs.Handshake.Shape

/-!
# Server capabilities

The shape of what a language server tells about itself when a client connects: one optional field for
each thing that it may be able to do. Where a server may answer with a plain `true` or with options, the
options come in the order in which they are tried.
-/

namespace IndexFs.Shape

/-! ## Fields -/

/-- A field without which the record is malformed. -/
def required (name : String) (shape : Shape) : FieldOf Shape :=
  ⟨name, shape, .required, false⟩

def optional (name : String) (shape : Shape) : FieldOf Shape :=
  ⟨name, shape, .optional, false⟩

def nullable (name : String) (shape : Shape) : FieldOf Shape :=
  ⟨name, shape, .nullable, false⟩

/-- The field as one of a smaller record that is written in place. -/
def inPlace (f : FieldOf Shape) : FieldOf Shape :=
  { f with inlined := true }

/-- A record with fields of its own only. -/
def plain (name : String) (fields : List (FieldOf Shape)) : Shape :=
  .record name fields false

/-- A record with fields of smaller records in place. -/
def mixed (name : String) (fields : List (FieldOf Shape)) : Shape :=
  .record name fields true

def strings : Shape := .list .string

/-! ## Parts that many options share -/

/-- Whether progress is reported, in place among the options. -/
def workDone : FieldOf Shape :=
  inPlace (optional "workDoneProgress" .bool)

def documentFilter : Shape :=
  plain "DocumentFilter"
    [optional "language" .string, optional "scheme" .string, optional "pattern" .string]

def documentSelector : FieldOf Shape :=
  nullable "documentSelector" (.list documentFilter)

def registrationId : FieldOf Shape :=
  optional "id" .string

/-- Options that only tell whether progress is reported. -/
def progressOptions (name : String) : Shape :=
  mixed name [workDone]

/-- Options that are registered for some documents, under an id of their own. -/
def staticRegistration (name : String) : Shape :=
  plain name [documentSelector, registrationId]

/-- The options with the documents they are registered for. -/
def registered (name : String) (fields : List (FieldOf Shape)) : Shape :=
  mixed name ((documentSelector :: fields ++ [registrationId]).map inPlace)

/-- A plain answer or options. -/
def boolOr (name : String) (options : List Shape) : Shape :=
  .choice name (.bool :: options)

/-- One of two shapes. -/
def either (a b : Shape) : Shape :=
  .choice "OneOf" [a, b]

/-! ## Documents -/

/-- How changes of a document are told: one mode for all, or options for each occasion. -/
def textDocumentSync : Shape :=
  .choice "TextDocumentSyncCapability"
    [ .int32,
      plain "TextDocumentSyncOptions"
        [ optional "openClose" .bool,
          optional "change" .int32,
          optional "willSave" .bool,
          optional "willSaveWaitUntil" .bool,
          optional "save" (.choice "TextDocumentSyncSaveOptions"
            [.bool, plain "SaveOptions" [optional "includeText" .bool]]) ] ]

/-- Three fields of which one must be given, whichever it is. -/
def notebookFilter : Shape :=
  let filter (type scheme pattern : String → Shape → FieldOf Shape) : Shape :=
    plain "NotebookDocumentFilter"
      [type "notebookType" .string, scheme "scheme" .string, pattern "pattern" .string]
  .choice "NotebookDocumentFilter"
    [ filter required optional optional,
      filter optional required optional,
      filter optional optional required ]

def notebookSelector : Shape :=
  let notebook : Shape := .choice "Notebook" [.string, notebookFilter]
  let cells : Shape := .list (plain "NotebookCellSelector" [required "language" .string])
  .choice "NotebookSelector"
    [ plain "ByNotebook" [required "notebook" notebook, optional "cells" cells],
      plain "ByCells" [optional "notebook" notebook, required "cells" cells] ]

def notebookSync : Shape :=
  let fields := [required "notebookSelector" (.list notebookSelector), optional "save" .bool]
  either (plain "NotebookDocumentSyncOptions" fields)
    (plain "NotebookDocumentSyncRegistrationOptions" (fields ++ [registrationId]))

/-! ## Completion, navigation and editing -/

def completion : Shape :=
  mixed "CompletionOptions"
    [ optional "resolveProvider" .bool,
      optional "triggerCharacters" strings,
      optional "allCommitCharacters" strings,
      workDone,
      optional "completionItem"
        (plain "CompletionOptionsCompletionItem" [optional "labelDetailsSupport" .bool]) ]

def signatureHelp : Shape :=
  mixed "SignatureHelpOptions"
    [optional "triggerCharacters" strings, optional "retriggerCharacters" strings, workDone]

def codeAction : Shape :=
  boolOr "CodeActionProviderCapability"
    [ mixed "CodeActionOptions"
        [optional "codeActionKinds" strings, workDone, optional "resolveProvider" .bool] ]

def onTypeFormatting : Shape :=
  plain "DocumentOnTypeFormattingOptions"
    [required "firstTriggerCharacter" .string, optional "moreTriggerCharacter" strings]

def rename : Shape :=
  either .bool (mixed "RenameOptions" [optional "prepareProvider" .bool, workDone])

def documentLink : Shape :=
  mixed "DocumentLinkOptions" [optional "resolveProvider" .bool, workDone]

/-- Options for the tokens of a document, with or without a registration. -/
def semanticTokens : Shape :=
  let legend : Shape :=
    plain "SemanticTokensLegend" [required "tokenTypes" strings, required "tokenModifiers" strings]
  let full : Shape :=
    .choice "SemanticTokensFullOptions" [.bool, plain "Delta" [optional "delta" .bool]]
  let fields := [required "legend" legend, optional "range" .bool, optional "full" full]
  .choice "SemanticTokensServerCapabilities"
    [ mixed "SemanticTokensOptions" (workDone :: fields),
      registered "SemanticTokensRegistrationOptions" (workDone :: fields) ]

def diagnostics : Shape :=
  let fields :=
    [ optional "identifier" .string,
      required "interFileDependencies" .bool,
      required "workspaceDiagnostics" .bool,
      workDone ]
  .choice "DiagnosticServerCapabilities"
    [ mixed "DiagnosticOptions" fields,
      registered "DiagnosticRegistrationOptions" fields ]

/-! ## Workspaces -/

def fileOperations : Shape :=
  let pattern : Shape :=
    plain "FileOperationPattern"
      [ required "glob" .string,
        optional "matches" .string,
        optional "options"
          (plain "FileOperationPatternOptions" [optional "ignoreCase" .bool]) ]
  let filter : Shape :=
    plain "FileOperationFilter" [optional "scheme" .string, required "pattern" pattern]
  plain "FileOperationRegistrationOptions" [required "filters" (.list filter)]

def workspace : Shape :=
  plain "WorkspaceServerCapabilities"
    [ optional "workspaceFolders"
        (plain "WorkspaceFoldersServerCapabilities"
          [optional "supported" .bool, optional "changeNotifications" (either .bool .string)]),
      optional "fileOperations"
        (plain "WorkspaceFileOperationsServerCapabilities"
          (["didCreate", "willCreate", "didRename", "willRename", "didDelete", "willDelete"].map
            fun name => optional name fileOperations)) ]

/-! ## The whole -/

/-- A plain answer or options about progress. -/
def boolOrProgress (name : String) : Shape :=
  either .bool (progressOptions name)

/-- Options about progress, alone or with the documents they are registered for. -/
def progressOrRegistered (name options registration : String) : Shape :=
  boolOr name [progressOptions options, registered registration [workDone]]

/-- All that a server may be able to do. -/
def serverCapabilities : Shape :=
  plain "ServerCapabilities"
    [ optional "positionEncoding" .string,
      optional "textDocumentSync" textDocumentSync,
      optional "notebookDocumentSync" notebookSync,
      optional "selectionRangeProvider"
        (progressOrRegistered "SelectionRangeProviderCapability" "SelectionRangeOptions"
          "SelectionRangeRegistrationOptions"),
      optional "hoverProvider" (boolOr "HoverProviderCapability" [progressOptions "HoverOptions"]),
      optional "completionProvider" completion,
      optional "signatureHelpProvider" signatureHelp,
      optional "definitionProvider" (boolOrProgress "DefinitionOptions"),
      optional "typeDefinitionProvider"
        (boolOr "TypeDefinitionProviderCapability"
          [staticRegistration "StaticTextDocumentRegistrationOptions"]),
      optional "implementationProvider"
        (boolOr "ImplementationProviderCapability"
          [staticRegistration "StaticTextDocumentRegistrationOptions"]),
      optional "referencesProvider" (boolOrProgress "ReferencesOptions"),
      optional "documentHighlightProvider" (boolOrProgress "DocumentHighlightOptions"),
      optional "documentSymbolProvider"
        (either .bool (mixed "DocumentSymbolOptions" [optional "label" .string, workDone])),
      optional "workspaceSymbolProvider"
        (either .bool
          (mixed "WorkspaceSymbolOptions" [workDone, optional "resolveProvider" .bool])),
      optional "codeActionProvider" codeAction,
      optional "codeLensProvider" (plain "CodeLensOptions" [optional "resolveProvider" .bool]),
      optional "documentFormattingProvider" (boolOrProgress "DocumentFormattingOptions"),
      optional "documentRangeFormattingProvider" (boolOrProgress "DocumentRangeFormattingOptions"),
      optional "documentOnTypeFormattingProvider" onTypeFormatting,
      optional "renameProvider" rename,
      optional "documentLinkProvider" documentLink,
      optional "colorProvider"
        (boolOr "ColorProviderCapability"
          [ plain "ColorProviderOptions" [],
            staticRegistration "StaticTextDocumentColorProviderOptions" ]),
      optional "foldingRangeProvider"
        (boolOr "FoldingRangeProviderCapability"
          [ plain "FoldingProviderOptions" [],
            staticRegistration "StaticTextDocumentColorProviderOptions" ]),
      optional "declarationProvider"
        (boolOr "DeclarationCapability"
          [ registered "DeclarationRegistrationOptions" [workDone],
            progressOptions "DeclarationOptions" ]),
      optional "executeCommandProvider"
        (mixed "ExecuteCommandOptions" [required "commands" strings, workDone]),
      optional "workspace" workspace,
      optional "callHierarchyProvider"
        (boolOr "CallHierarchyServerCapability" [progressOptions "CallHierarchyOptions"]),
      optional "semanticTokensProvider" semanticTokens,
      optional "monikerProvider"
        (either .bool
          (.choice "MonikerServerCapabilities"
            [ progressOptions "MonikerOptions",
              registered "MonikerRegistrationOptions" [workDone] ])),
      optional "linkedEditingRangeProvider"
        (progressOrRegistered "LinkedEditingRangeServerCapabilities" "LinkedEditingRangeOptions"
          "LinkedEditingRangeRegistrationOptions"),
      optional "inlineValueProvider"
        (either .bool
          (.choice "InlineValueServerCapabilities"
            [ progressOptions "InlineValueOptions",
              registered "InlineValueRegistrationOptions" [workDone] ])),
      optional "inlayHintProvider"
        (either .bool
          (.choice "InlayHintServerCapabilities"
            [ mixed "InlayHintOptions" [workDone, optional "resolveProvider" .bool],
              registered "InlayHintRegistrationOptions"
                [workDone, optional "resolveProvider" .bool] ])),
      optional "diagnosticProvider" diagnostics,
      optional "experimental" .any ]

end IndexFs.Shape
