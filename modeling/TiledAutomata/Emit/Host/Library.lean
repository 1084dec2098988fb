/-!
# Packages of the host library

The packages that come with the host language, each with the names that it exports. Where two
have the same last name, the first that exports what is needed is meant.
-/

namespace TiledAutomata.Emit.Host.Library

/-- Packages, each with a semicolon in front of its path and with its names behind it. Behind a
beginning that several names share, their ends stand in brackets. -/
def text : String := "
 ;archive/tar Err(FieldTooLong Header InsecurePath Write(AfterClose TooLong)) FileInfo(Header Names)
 Format( GNU PAX USTAR Unknown) Header New(Reader Writer) Reader Type(Block Char Cont Dir Fifo
 GNU(Long(Link Name) Sparse) Link Reg( A) Symlink XGlobalHeader XHeader) Writer
 ;archive/zip Compressor De(compressor flate) Err(Algorithm Checksum Format InsecurePath) File(
 Header InfoHeader) New(Reader Writer) OpenReader Re(ad(Closer er) gister(Compressor Decompressor))
 Store Writer
 ;bufio Err(AdvanceTooFar BadReadCount BufferFull FinalToken InvalidUnread(Byte Rune)
 Negative(Advance Count) TooLong) MaxScanTokenSize New(Read(Writer er( Size)) Scanner Writer( Size))
 Read(Writer er) Scan(Bytes Lines Runes Words ner) SplitFunc Writer
 ;bytes Buffer C(lone o(mpare ntains( Any Func Rune) unt) ut( Prefix Suffix)) Equal( Fold)
 ErrTooLarge Fields( Func( Seq) Seq) Has(Prefix Suffix) Index( Any Byte Func Rune) Join LastIndex(
 Any Byte Func) Lines Map MinRead New(Buffer( String) Reader) Re(ader peat place( All)) Runes Split(
 After( N Seq) N Seq) T(itle o(Lower( Special) Title( Special) Upper( Special) ValidUTF8) rim( Func
 Left( Func) Prefix Right( Func) Space Suffix))
 ;cmp Compare Less Or( dered)
 ;compress/bzip2 NewReader StructuralError
 ;compress/flate Best(Compression Speed) CorruptInputError DefaultCompression HuffmanOnly
 InternalError New(Reader( Dict) Writer( Dict)) NoCompression Re(ad(Error er) setter) Write(Error r)
 ;compress/gzip Best(Compression Speed) DefaultCompression Err(Checksum Header) Header HuffmanOnly
 New(Reader Writer( Level)) NoCompression Reader Writer
 ;compress/lzw LSB MSB New(Reader Writer) Order Reader Writer
 ;compress/zlib Best(Compression Speed) DefaultCompression Err(Checksum Dictionary Header)
 HuffmanOnly New(Reader( Dict) Writer( Level( Dict))) NoCompression Resetter Writer
 ;container/heap Fix In(it terface) Pop Push Remove
 ;container/list Element List New
 ;container/ring New Ring
 ;context AfterFunc Background C(ancel(CauseFunc Func ed) ause ontext) DeadlineExceeded TODO
 With(Cancel( Cause) Deadline( Cause) Timeout( Cause) Value outCancel)
 ;crypto BLAKE2(b_(256 384 512) s_256) Dec(apsulator rypter( Opts)) Encapsulator Hash MD(4 5 5SHA1)
 MessageSigner PrivateKey PublicKey RIPEMD160 RegisterHash SHA(1 224 256 384 3_(224 256 384 512)
 512( _2(24 56))) Sign(Message er( Opts))
 ;crypto/aes BlockSize KeySizeError NewCipher
 ;crypto/cipher AEAD Block( Mode) New(C(BC(Decrypter Encrypter) FB(Decrypter Encrypter) TR) GCM(
 With(NonceSize RandomNonce TagSize)) OFB) Stream( Reader Writer)
 ;crypto/des BlockSize KeySizeError New(Cipher TripleDESCipher)
 ;crypto/dsa ErrInvalidPublicKey Generate(Key Parameters) L(1024N160 2048N2(24 56) 3072N256)
 P(arameter(Sizes s) rivateKey ublicKey) Sign Verify
 ;crypto/ecdh Curve KeyExchanger P(256 384 521 rivateKey ublicKey) X25519
 ;crypto/ecdsa GenerateKey P(arse(RawPrivateKey UncompressedPublicKey) rivateKey ublicKey) Sign(
 ASN1) Verify( ASN1)
 ;crypto/ed25519 GenerateKey NewKeyFromSeed Options PrivateKey( Size) PublicKey( Size) SeedSize
 Sign( atureSize) Verify( WithOptions)
 ;crypto/elliptic Curve( Params) GenerateKey Marshal( Compressed) P(224 256 384 521) Unmarshal(
 Compressed)
 ;crypto/fips140 En(abled forced) Version WithoutEnforcement
 ;crypto/hkdf Ex(pand tract) Key
 ;crypto/hmac Equal New
 ;crypto/hpke AE(AD S128GCM S256GCM) ChaCha20Poly1305 HKDFSHA(256 384 512) KDF KEM New(Recipient
 Sender) Open PrivateKey PublicKey Recipient Se(al nder)
 ;crypto/md5 BlockSize New Size Sum
 ;crypto/mlkem CiphertextSize(1024 768) DecapsulationKey(1024 768) EncapsulationKey(1024 768
 Size(1024 768)) GenerateKey(1024 768) New(DecapsulationKey(1024 768) EncapsulationKey(1024 768))
 SeedSize SharedKeySize
 ;crypto/pbkdf2 Key
 ;crypto/rand Int Prime Read( er) Text
 ;math/rand/v2 ChaCha8 ExpFloat64 Float(32 64) Int( 32( N) 64( N) N) N( ew( ChaCha8 PCG Zipf)
 ormFloat64) PCG Perm Rand Shuffle Source Uint( 32( N) 64( N) N) Zipf
 ;math/rand ExpFloat64 Float(32 64) Int( 31( n) 63( n) n) New( Source Zipf) NormFloat64 Perm Rand
 Read S(eed huffle ource( 64)) Uint(32 64) Zipf
 ;crypto/rc4 Cipher KeySizeError NewCipher
 ;crypto/rsa CRTValue Decrypt(OAEP PKCS1v15( SessionKey)) Encrypt(OAEP( WithOptions) PKCS1v15)
 Err(Decryption MessageTooLong Verification) Generate(Key MultiPrimeKey) OAEPOptions
 P(KCS1v15DecryptOptions SS(Options SaltLength(Auto EqualsHash)) recomputedValues rivateKey
 ublicKey) SignP(KCS1v15 SS) VerifyP(KCS1v15 SS)
 ;crypto/sha1 BlockSize New Size Sum
 ;crypto/sha256 BlockSize New( 224) Size( 224) Sum2(24 56)
 ;crypto/sha3 New(224 256 384 512 CSHAKE(128 256) SHAKE(128 256)) SHA(3 KE) Sum(224 256 384 512
 SHAKE(128 256))
 ;crypto/sha512 BlockSize New( 384 512_2(24 56)) Size( 224 256 384) Sum(384 512( _2(24 56)))
 ;crypto/subtle ConstantTime(ByteEq Co(mpare py) Eq LessOrEq Select) WithDataIndependentTiming
 XORBytes
 ;crypto/tls AlertError C(ertificate( RequestInfo VerificationError) ipherSuite( Name s) lient(
 AuthType HelloInfo Session(Cache State)) on(fig n nectionState) urve(ID P(256 384 521))) Dial(
 WithDialer er) InsecureCipherSuites Listen LoadX509KeyPair NewL(RUClientSessionCache istener)
 NoClientCert ParseSessionState Re(negotiat(e(FreelyAsClient Never OnceAsClient) ionSupport)
 qu(estClientCert ireAn(dVerifyClientCert yClientCert))) S(erver essionState ignatureScheme)
 Ver(ifyClientCertIfGiven sion(Name SSL30 TLS1(0 1 2 3))) X25519( MLKEM768) X509KeyPair
 ;crypto/x509 C(ert(Pool ificate( InvalidError Request)) onstraintViolationError reate(Certificate(
 Request) RevocationList)) DSA( WithSHA(1 256)) DecryptPEMBlock E(CDSA( WithSHA(1 256 384 512))
 d25519 ncryptPEMBlock rrUnsupportedAlgorithm xtKeyUsage( Any ClientAuth ServerAuth)) HostnameError
 KeyUsage( CRLSign CertSign DigitalSignature KeyEncipherment) Marshal(ECPrivateKey
 PK(CS(1P(rivateKey ublicKey) 8PrivateKey) IXPublicKey)) NewCertPool Parse(Certificate( Request s)
 ECPrivateKey PK(CS(1P(rivateKey ublicKey) 8PrivateKey) IXPublicKey) RevocationList)
 PublicKeyAlgorithm RSA RevocationList S(HA256WithRSA ignatureAlgorithm ystemCertPool)
 UnknownAuthorityError VerifyOptions
 ;crypto/x509/pkix AlgorithmIdentifier AttributeTypeAndValue( SET) CertificateList Extension Name
 R(DNSequence elativeDistinguishedNameSET evokedCertificate) TBSCertificateList
 ;database/sql Co(lumnType nn) D(B BStats rivers) Err(ConnDone NoRows TxDone) IsolationLevel
 Level(Default Linearizable Re(ad(Committed Uncommitted) peatableRead) Serializable Snapshot
 WriteCommitted) Named( Arg) Null( Bool Byte Float64 Int(16 32 64) String Time) Open( DB) Out
 R(awBytes egister esult ow( s)) Scanner Stmt Tx( Options)
 ;database/sql/driver Bool Co(lumnConverter nn( BeginTx PrepareContext ector))
 DefaultParameterConverter Driver( Context) Err(BadConn RemoveArgument Skip) Execer( Context) Int32
 Is(ScanValue Value olationLevel) N(amedValue( Checker) otNull ull) Pinger Queryer( Context) Result(
 NoRows) Rows( Affected ColumnScanner NextResultSet) S(essionResetter tmt( ExecContext QueryContext)
 tring) Tx( Options) Val(idator ue( Converter r))
 ;debug/buildinfo BuildInfo Read( File)
 ;debug/dwarf A(ddrType rrayType ttr( Name Type)) BasicType BoolType C(harType lass om(monType
 plexType)) D(ata ecodeError otDotDotType) E(ntry num(Type Value) rrUnknownPC) F(ield loatType
 uncType) IntType Line(Entry File Reader( Pos)) New Offset PtrType QualType Reader Struct(Field
 Type) Tag Type( defType) U(charType intType ns(pecifiedType upportedType)) VoidType
 ;debug/elf Class Data ELFCLASS(32 64) File( Header) FormatError ImportedSymbol Machine NType
 NewFile OSABI Open Prog( Flag Header Type) Section( Flag Header Index Type) Symbol Type Version
 ;debug/gosym DecodingError Func LineTable New(LineTable Table) Obj Sym Table Unknown(FileError
 LineError)
 ;debug/macho Cpu( 386 Amd64 Arm( 64)) Dylib F(atFile ile( Header) ormatError) Load( Cmd)
 NewF(atFile ile) Open( Fat) S(ection egment ym(bol tab)) Type
 ;debug/pe COFFSymbol DataDirectory File( Header) FormatError NewFile Op(en tionalHeader(32 64))
 Reloc S(ection( Header) tringTable ymbol)
 ;debug/plan9obj ErrNoSymbols File( Header) Magic(386 64 AMD64 ARM) NewFile Open Section( Header)
 Sym
 ;embed FS
 ;encoding Binary(Appender Marshaler Unmarshaler) Text(Appender Marshaler Unmarshaler)
 ;encoding/ascii85 CorruptInputError Decode Encode MaxEncodedLen New(Decoder Encoder)
 ;encoding/asn1 BitString Class(Application ContextSpecific Private Universal) Enumerated Flag
 Marshal( WithParams) Null(Bytes RawValue) ObjectIdentifier Raw(Content Value) StructuralError
 SyntaxError Tag(B(MPString itString oolean) Enum General(String izedTime) IA5String Integer Nu(ll
 mericString) OID OctetString PrintableString Se(quence t) T61String UT(CTime F8String)) Unmarshal(
 WithParams)
 ;encoding/base32 CorruptInputError Encoding HexEncoding New(Decoder Encod(er ing)) NoPadding
 Std(Encoding Padding)
 ;encoding/base64 CorruptInputError Encoding New(Decoder Encod(er ing)) NoPadding Raw(StdEncoding
 URLEncoding) Std(Encoding Padding) URLEncoding
 ;encoding/binary Append( ByteOrder Uvarint Varint) BigEndian ByteOrder Decode Encode LittleEndian
 MaxVarintLen(16 32 64) NativeEndian Put(Uvarint Varint) Read( Uvarint Varint) Size Uvarint Varint
 Write
 ;encoding/csv Err(BareQuote FieldCount Quote TrailingComma) New(Reader Writer) ParseError Reader
 Writer
 ;encoding/gob CommonType Decoder Encoder Gob(Decoder Encoder) New(Decoder Encoder) Register( Name)
 ;encoding/hex Append(Decode Encode) Decode( String dLen) Dump( er) Encode( ToString dLen) ErrLength
 InvalidByteError New(Decoder Encoder)
 ;encoding/json Compact De(coder lim) Encoder HTMLEscape In(dent validU(TF8Error nmarshalError))
 Marshal( Indent er( Error)) New(Decoder Encoder) Number RawMessage SyntaxError Token Un(marshal(
 FieldError TypeError er) supported(TypeError ValueError)) Valid
 ;encoding/pem Block Decode Encode( ToMemory)
 ;encoding/xml Attr C(harData omment opyToken) Decoder Directive E(ncoder ndElement scape( Text))
 HTML(AutoClose Entity) Header Marshal( Indent er( Attr)) Name New(Decoder Encoder TokenDecoder)
 ProcInst StartElement SyntaxError TagPathError Token( Reader) Un(marshal( Error er( Attr))
 supportedTypeError)
 ;errors As( Type) ErrUnsupported Is Join New Unwrap
 ;expvar Do Float Func Get Handler Int KeyValue Map New(Float Int Map String) Publish String Var
 ;flag Arg( s) Bool( Func Var) Co(mmandLine ntinueOnError) Duration( Var) Err(Help orHandling)
 ExitOnError F(lag( Set) loat64( Var) unc) Getter Int( 64( Var) Var) Lookup N(Arg Flag ewFlagSet)
 P(anicOnError arse( d) rintDefaults) Set String( Var) TextVar U(int( 64( Var) Var) nquoteUsage
 sage) V(alue ar isit( All))
 ;fmt Append( f ln) Errorf F(ormat(String ter) print( f ln) scan( f ln)) GoStringer Print( f ln)
 S(can( State f ln ner) print( f ln) scan( f ln) tate tringer)
 ;go/ast ArrayType AssignStmt B(ad( Decl Expr Stmt) asicLit inaryExpr lockStmt ranchStmt) C(allExpr
 aseClause han(Dir Type) om(mClause ment( Group Map) positeLit) on) De(cl( Stmt) ferStmt) E(llipsis
 mptyStmt xpr( Stmt)) F(ield( Filter List) il(e eExports ter( Decl File FuncDuplicates
 ImportDuplicates Package UnassociatedComments)) orStmt print un( c(Decl Lit Type))) GenDecl GoStmt
 I(dent fStmt mport(Spec er) n(cDecStmt dex(Expr ListExpr) spect terfaceType) sExported sGenerated)
 KeyValueExpr LabeledStmt Lbl MapType Merge(Mode PackageFiles) N(ew(CommentMap Ident Obj Package
 Scope) ode otNilFilter) Obj(Kind ect) P(ackage( Exports) arenExpr kg reorder( Stack) rint) R(ECV
 angeStmt eturnStmt) S(END cope elect(Stmt orExpr) endStmt liceExpr ortImports pec t(arExpr mt
 ructType) witchStmt) Typ( e(AssertExpr Spec SwitchStmt)) Un(aryExpr paren) V(alueSpec ar isitor)
 Walk
 ;go/build AllowBinary ArchChar Context Default Directive FindOnly I(gnoreVendor mport( Comment Dir
 Mode) sLocalImport) MultiplePackageError NoGoError Package ToolDir
 ;go/build/constraint AndExpr Expr GoVersion Is(GoBuild PlusBuild) NotExpr OrExpr Parse
 PlusBuildLines SyntaxError TagExpr
 ;go/constant B(inaryOp itLen ool( Val) ytes) Comp(are lex) Denom Float( 32Val 64Val) Imag Int(
 64Val) Kind Make( Bool Float64 From(Bytes Literal) Imag Int64 String Uint64 Unknown) Num Real
 S(hift ign tring( Val)) To(Complex Float Int) U(int64Val naryOp nknown) Val( ue)
 ;go/doc All(Decls Methods) Example( s) Filter Func IllegalPrefixes IsPredeclared Mode New(
 FromFiles) Note Package PreserveAST Synopsis T(oHTML oText ype) Value
 ;go/doc/comment Block Code DefaultLookupPackage Doc( Link) Heading Italic Li(nk( Def) st( Item))
 P(ar(agraph ser) lain rinter) Text
 ;go/format Node Source
 ;go/importer Default For( Compiler) Lookup
 ;go/parser AllErrors DeclarationErrors ImportsOnly Mode Pa(ckageClauseOnly rse(Comments Dir Expr(
 From) File)) SkipObjectResolution SpuriousErrors Trace
 ;go/printer Co(mmentedNode nfig) Fprint Mode RawFormat SourcePos TabIndent UseSpaces
 ;go/scanner Error( Handler List) Mode PrintError Scan(Comments ner)
 ;go/token A(DD( _ASSIGN) ND( _ASSIGN _NOT( _ASSIGN)) RROW SSIGN) BREAK C(ASE HA(N R) O(LON MM(A
 ENT) NST NTINUE)) DE(C F(AULT ER INE)) E(LLIPSIS LSE OF QL) F(ALLTHROUGH LOAT OR UNC ile( Set))
 G(EQ O OTO TR) HighestPrec I(DENT F LLEGAL MAG MPORT N(C T TERFACE) s(Exported Identifier Keyword))
 L(AND BRAC(E K) EQ OR PAREN SS ookup owestPrec) MAP MUL( _ASSIGN) N(EQ OT ewFileSet oPos) OR(
 _ASSIGN) P(ACKAGE ERIOD os( ition)) QUO( _ASSIGN) R(ANGE BRAC(E K) E(M M_ASSIGN TURN) PAREN)
 S(ELECT EMICOLON H(L L_ASSIGN R R_ASSIGN) TR(ING UCT) UB( _ASSIGN) WITCH) T(ILDE YPE oken)
 UnaryPrec VAR XOR( _ASSIGN)
 ;go/types A(lias( Types) rgumentError rray ss(ertableTo ignableTo)) B(asic( Info Kind) ool uiltin)
 C(han( Dir) hecker omp(arable lex(128 64)) on(fig st text vertibleTo)) Def(PredeclaredTestFuncs
 ault) E(rror val xprString) F(ieldVal loat(32 64) unc) I(d dentical( IgnoreTags) mp(lements
 ort(Mode er( From))) n(fo itializer stan(ce tiate) t( 16 32 64 8 erface) valid) s(Boolean Co(mplex
 nstType) Float Inte(ger rface) Numeric Ordered String Un(signed typed))) Label Lookup(FieldOrMethod
 Selection) M(ap ethod(Expr Set Val) issingMethod) N(amed ew(Alias Array C(han hecker on(st text))
 Field Func Interface( Type) Label Map MethodSet Named P(ackage aram kgName ointer) S(cope ignature(
 Type) lice truct) T(erm uple ype(Name Param)) Union Var) il) Object( Kind String) P(ackage kgName
 ointer) Qualifier R(ecvOnly elativeTo une) S(atisfies cope election( Kind String) end(Only Recv)
 ignature izes( For) lice t(dSizes ring ruct)) T(erm uple yp( e( AndValue List Name Param( List)
 String))) Uint( 16 32 64 8 ptr) Un(alias ion iverse safe( Pointer) typed(Bool Complex Float Int Nil
 Rune String)) Var( Kind) Write(Expr Signature Type)
 ;go/version Compare IsValid Lang
 ;hash Cloner Hash( 32 64) XOF
 ;hash/adler32 Checksum New Size
 ;hash/crc32 Castagnoli Checksum( IEEE) IEEE( Table) Koopman MakeTable New( IEEE) Size Table Update
 ;hash/crc64 Checksum ECMA ISO MakeTable New Size Table Update
 ;hash/fnv New(128( a) 32( a) 64( a))
 ;hash/maphash Bytes Comparable Hash MakeSeed Seed String WriteComparable
 ;html EscapeString UnescapeString
 ;html/template CSS Err(AmbigContext BadHTML BranchEnd EndContext JSTemplate NoSuchTemplate
 OutputContext Partial(Charset Escape) PredefinedEscaper RangeLoopReentry SlashAmbig or( Code))
 FuncMap HTML( Attr Escape( String r)) IsTrue JS( Escape( String r) Str) Must New OK Parse(FS Files
 Glob) Srcset Template URL( QueryEscaper)
 ;image Alpha( 16) Black CMYK Config Decode( Config) ErrFormat Gray( 16) Image N(RGBA( 64) YCbCrA
 ew(Alpha( 16) CMYK Gray( 16) NRGBA( 64) NYCbCrA Paletted RGBA( 64) Uniform YCbCr)) Opaque
 P(aletted( Image) oint t) R(GBA( 64( Image)) ect( angle) egisterFormat) Transparent Uniform White
 YCbCr( SubsampleRatio( 4(10 11 20 22 40 44))) ZP ZR
 ;image/color Alpha( 16( Model) Model) Black CMYK( Model ToRGB) Color Gray( 16( Model) Model) Model(
 Func) NRGBA( 64( Model) Model) NYCbCrA( Model) Opaque Palette RGB(A( 64( Model) Model) To(CMYK
 YCbCr)) Transparent White YCbCr( Model ToRGB)
 ;image/color/palette Plan9 WebSafe
 ;image/draw Draw( Mask er) FloydSteinberg Image Op Over Quantizer RGBA64Image Src
 ;image/gif Decode( All Config) Disposal(Background None Previous) Encode( All) GIF Options
 ;image/jpeg De(code( Config) faultQuality) Encode FormatError Options Reader UnsupportedError
 ;image/png Best(Compression Speed) CompressionLevel De(code( Config) faultCompression) Encode( r
 rBuffer( Pool)) FormatError NoCompression UnsupportedError
 ;index/suffixarray Index New
 ;io Byte(Reader Scanner Writer) Closer Copy( Buffer N) Discard EOF Err(ClosedPipe NoProgress
 Short(Buffer Write) UnexpectedEOF) Limit(Reader edReader) Multi(Reader Writer) New(OffsetWriter
 SectionReader) NopCloser OffsetWriter Pipe( Reader Writer) Read(All AtLeast Closer Full Seek(Closer
 er) Write(Closer Seeker r) er( At From)) Rune(Reader Scanner) S(ectionReader eek(Current End Start
 er) tringWriter) TeeReader Write(Closer Seeker String r( At To))
 ;io/fs DirEntry Err(Closed Exist Invalid NotExist Permission) F(S ile( Info( ToDirEntry) Mode)
 ormat(DirEntry FileInfo)) Glob( FS) Lstat Mode(Append CharDevice Device Dir Exclusive Irregular
 NamedPipe Perm S(et(gid uid) ocket ticky ymlink) Temporary Type) PathError Read(Dir( FS File) File(
 FS) Link( FS)) S(kip(All Dir) tat( FS) ub( FS)) ValidPath WalkDir( Func)
 ;io/ioutil Discard NopCloser Read(All Dir File) Temp(Dir File) WriteFile
 ;iter Pull( 2) Seq( 2)
 ;log Default Fatal( f ln) Flags L(UTC date longfile microseconds msgprefix ogger shortfile stdFlags
 time) New Output P(anic( f ln) refix rint( f ln)) Set(Flags Output Prefix) Writer
 ;log/slog Any( Value) Attr Bool( Value) D(ebug( Context) efault iscardHandler uration( Value))
 Error( Context) Float64( Value) Group( Attrs Value) Handler( Options) In(fo( Context) t( 64( Value)
 Value)) JSONHandler Kind( Any Bool Duration Float64 Group Int64 LogValuer String Time Uint64)
 Level( Debug Error Info Key Var Warn er) Log( Attrs Valuer ger) MessageKey MultiHandler New(
 JSONHandler LogLogger MultiHandler Record TextHandler) Record S(et(Default LogLoggerLevel) ource(
 Key) tring( Value)) TextHandler Time( Key Value) Uint64( Value) Value Warn( Context) With
 ;log/syslog Dial LOG_(ALERT AUTH( PRIV) CR(IT ON) DAEMON DEBUG EMERG ERR FTP INFO KERN LOCAL(0 1 2
 3 4 5 6 7) LPR MAIL NEWS NOTICE SYSLOG USER UUCP WARNING) New( Logger) Priority Writer
 ;maps All C(lone ollect opy) DeleteFunc Equal( Func) Insert Keys Values
 ;math A(bs cos( h) sin( h) tan( 2 h)) C(brt eil o(pysign s sh)) Dim E( rf( c cinv inv) xp( 2 m1))
 F(MA lo(at(32(bits frombits) 64(bits frombits)) or) rexp) Gamma Hypot I(logb nf sInf sNaN) J(0 1 n)
 L(dexp gamma n10 n2 og( 1(0 0E p) 2 2E b)) M(ax( Float(32 64) Int( 16 32 64 8) Uint( 16 32 64 8))
 in( Int( 16 32 64 8)) od( f)) NaN Nextafter( 32) P(hi i ow( 10)) Remainder Round( ToEven) S(ignbit
 in( cos h) mallestNonzeroFloat(32 64) qrt( 2 E Phi Pi)) Tan( h) Trunc Y(0 1 n)
 ;math/big A(bove ccuracy wayFromZero) Below ErrNaN Exact Float Int Jacobi Max(Base Exp Prec) MinExp
 New(Float Int Rat) ParseFloat Rat RoundingMode To(Ne(arest(Away Even) gativeInf) PositiveInf Zero)
 Word
 ;math/bits Add( 32 64) Div( 32 64) Le(adingZeros( 16 32 64 8) n( 16 32 64 8)) Mul( 32 64)
 OnesCount( 16 32 64 8) R(em( 32 64) everse( 16 32 64 8 Bytes( 16 32 64)) otateLeft( 16 32 64 8))
 Sub( 32 64) TrailingZeros( 16 32 64 8) UintSize
 ;math/cmplx A(bs cos( h) sin( h) tan( h)) Co(nj s sh t) Exp I(nf sInf sNaN) Log( 10) NaN P(hase
 olar ow) Rect Sin( h) Sqrt Tan( h)
 ;mime AddExtensionType BEncoding ErrInvalidMediaParameter ExtensionsByType FormatMediaType
 ParseMediaType QEncoding TypeByExtension Word(Decoder Encoder)
 ;mime/multipart ErrMessageTooLarge File( ContentDisposition Header) Form New(Reader Writer) Part
 Reader Writer
 ;mime/quotedprintable New(Reader Writer) Reader Writer
 ;net Addr( Error) Buffers CIDRMask Conn D(NS(ConfigError Error) efaultResolver ial( IP TCP Timeout
 UDP Unix er)) Err(Closed WriteToConnected or) File(Conn Listener PacketConn) Flag(Broadcast
 Loopback Multicast PointToPoint Running Up s) HardwareAddr I(P( Addr Conn Mask Net v4( Mask
 all(router sys) bcast len zero) v6(interfacelocalallnodes l(en inklocalall(nodes routers) oopback)
 unspecified zero)) nterface( Addrs By(Index Name) s) nvalidAddrError) JoinHostPort KeepAliveConfig
 Listen( Config IP MulticastUDP Packet TCP UDP Unix( gram) er) Lookup(Addr CNAME Host IP MX NS Port
 SRV TXT) MX NS OpError P(acketConn arse(CIDR Error IP MAC) ipe) Resolve(IPAddr TCPAddr UDPAddr
 UnixAddr r) SRV SplitHostPort TCP(Addr( FromAddrPort) Conn Listener) U(DP(Addr( FromAddrPort) Conn)
 nix(Addr Conn Listener) nknownNetworkError)
 ;net/http AllowQuerySemicolons C(anonicalHeaderKey lient( Conn) loseNotifier onnState ookie( Jar)
 rossOriginProtection) D(efault(Client Max(HeaderBytes IdleConnsPerHost) ServeMux Transport)
 etectContentType ir) Err(AbortHandler Body(NotAllowed ReadAfterClose) ContentLength H(andlerTimeout
 eaderTooLong ijacked) LineTooLong Missing(Boundary ContentLength File) No(Cookie Location
 tMultipart tSupported) S(chemeMismatch erverClosed hortBody kipAltProtocol) UnexpectedTrailer
 UseLastResponse WriteAfterFlush or) F(S ile( Server( FS) System) lusher) Get H(TTP2Config andle(
 Func r rFunc) ead( er) ijacker) ListenAndServe( TLS) LocalAddrContextKey MaxBytes(Error Handler
 Reader) Method(Connect Delete Get Head Options P(atch ost ut) Trace) N(ew(CrossOriginProtection
 FileTransport( FS) Re(quest( WithContext) sponseController) ServeMux) oBody otFound( Handler))
 P(arse(Cookie HTTPVersion SetCookie Time) ost( Form) ro(tocol(Error s) xy(FromEnvironment URL))
 ush(Options er)) Re(adRe(quest sponse) direct( Handler) quest sponse( Controller Writer))
 RoundTripper S(ameSite( DefaultMode LaxMode NoneMode StrictMode) erve( Content File( FS) Mux TLS r
 rContextKey) etCookie tat(e(Active Closed Hijacked Idle New) us(Accepted AlreadyReported
 Bad(Gateway Request) Con(flict tinue) Created EarlyHints ExpectationFailed F(ailedDependency
 orbidden ound) GatewayTimeout Gone HTTPVersionNotSupported I(MUsed nsufficientStorage
 nternalServerError) L(engthRequired ocked oopDetected) M(ethodNotAllowed isdirectedRequest
 ovedPermanently ulti(Status pleChoices)) NetworkAuthenticationRequired No(Content
 nAuthoritativeInfo t(Acceptable Extended Found Implemented Modified)) OK P(artialContent
 aymentRequired ermanentRedirect r(econdition(Failed Required) ocessing oxyAuthRequired))
 Re(quest(EntityTooLarge HeaderFieldsTooLarge Timeout URITooLong edRangeNotSatisfiable) setContent)
 S(eeOther erviceUnavailable witchingProtocols) Te(apot mporaryRedirect xt) Too(Early ManyRequests)
 U(n(authorized availableForLegalReasons processableEntity supportedMediaType) pgradeRequired
 seProxy) VariantAlsoNegotiates)) tripPrefix) Time(Format outHandler) Tra(ilerPrefix nsport)
 ;net/http/cgi Handler Request( FromMap) Serve
 ;net/http/cookiejar Jar New Options PublicSuffixList
 ;net/http/fcgi Err(ConnClosed RequestAborted) ProcessEnv Serve
 ;net/http/httptest DefaultRemoteAddr New(Re(corder quest( WithContext)) Server TLSServer
 UnstartedServer) ResponseRecorder Server
 ;net/http/httptrace ClientTrace ContextClientTrace DNS(DoneInfo StartInfo) GotConnInfo
 WithClientTrace WroteRequestInfo
 ;net/http/httputil BufferPool ClientConn DumpRe(quest( Out) sponse) Err(Closed LineTooLong
 PersistEOF Pipeline) New(Chunked(Reader Writer) ClientConn ProxyClientConn ServerConn
 SingleHostReverseProxy) ProxyRequest ReverseProxy ServerConn
 ;net/http/pprof Cmdline Handler Index Profile Symbol Trace
 ;net/mail Address( Parser) ErrHeaderNotPresent Header Message Parse(Address( List) Date)
 ReadMessage
 ;net/netip Addr( From(16 4 Slice) Port( From)) IPv(4Unspecified 6(LinkLocalAll(Nodes Routers)
 Loopback Unspecified)) MustParse(Addr( Port) Prefix) Parse(Addr( Port) Prefix) Prefix( From)
 ;net/rpc Accept Call Client( Codec) Default(DebugPath RPCPath Server) Dial( HTTP( Path))
 ErrShutdown HandleHTTP New(Client( WithCodec) Server) Re(gister( Name) quest sponse) Serve(Co(dec
 nn) Request r( Codec Error))
 ;net/rpc/jsonrpc Dial New(Client( Codec) ServerCodec) ServeConn
 ;net/smtp Auth CRAMMD5Auth Client Dial NewClient PlainAuth Se(ndMail rverInfo)
 ;net/textproto CanonicalMIMEHeaderKey Conn Dial Error MIMEHeader New(Conn Reader Writer) Pipeline
 ProtocolError Reader Trim(Bytes String) Writer
 ;net/url Error EscapeError InvalidHostError JoinPath Pa(rse( Query RequestURI) th(Escape Unescape))
 Query(Escape Unescape) URL User( Password info) Values
 ;os Args C(h(dir mod own times) learenv opyFS reate( Temp)) DevNull Dir(Entry FS) E(nviron
 rr(Closed DeadlineExceeded Exist Invalid No(Deadline Handle tExist) Permission ProcessDone)
 x(ecutable it pand( Env))) Fi(le( Info Mode) ndProcess) Get(e(gid nv uid) gid groups p(agesize id
 pid) uid wd) Hostname Interrupt Is(Exist NotExist PathSeparator Permission Timeout) Kill L(chown
 ink( Error) ookupEnv stat) Mkdir( All Temp) Mode(Append CharDevice Device Dir Exclusive Irregular
 NamedPipe Perm S(et(gid uid) ocket ticky ymlink) Temporary Type) New(File SyscallError) O_(APPEND
 CREATE EXCL RD(ONLY WR) SYNC TRUNC WRONLY) Open( File InRoot Root) P(ath(Error ListSeparator
 Separator) ipe roc(Attr ess( State))) Re(ad(Dir File link) move( All) name) Root S(EEK_(CUR END
 SET) ameFile etenv ignal t(artProcess at d(err in out)) ymlink yscallError) TempDir Truncate
 Unsetenv User(CacheDir ConfigDir HomeDir) WriteFile
 ;os/exec Cmd Command( Context) Err(Dot NotFound WaitDelay or) ExitError LookPath
 ;os/signal Ignore( d) Notify( Context) Reset Stop
 ;os/user Current Group Lookup( Group( Id) Id) Unknown(Group(Error IdError) User(Error IdError))
 User
 ;path Base Clean Dir ErrBadPattern Ext IsAbs Join Match Split
 ;path/filepath Abs Base Clean Dir E(rrBadPattern valSymlinks xt) FromSlash Glob HasPrefix Is(Abs
 Local) Join ListSeparator Localize Match Rel S(eparator kip(All Dir) plit( List)) ToSlash
 VolumeName Walk( Dir Func)
 ;plugin Open Plugin Symbol
 ;reflect Append( Slice) Array( Of) Bo(ol thDir) C(han( Dir Of) omplex(128 64) opy) DeepEqual
 Float(32 64) Func( Of) In(direct t( 16 32 64 8 erface) valid) Kind M(ake(Chan Func Map( WithSize)
 Slice) ap( Iter Of) ethod) New( At) Pointer( To) Ptr( To) RecvDir S(elect( Case Default Dir Recv
 Send) endDir lice( At Header Of) tr(ing( Header) uct( Field Of Tag)) wapper) Type( Assert For Of)
 Uint( 16 32 64 8 ptr) UnsafePointer Value( Error Of) VisibleFields Zero
 ;regexp Compile( POSIX) Match( Reader String) MustCompile( POSIX) QuoteMeta Regexp
 ;regexp/syntax ClassNL Compile DotNL Empty(Begin(Line Text) End(Line Text) NoWordBoundary Op(
 Context) WordBoundary) Err(In(ternalError valid(Char(Class Range) Escape NamedCapture PerlOp
 Repeat(Op Size) UTF8)) Large Missing(Bracket Paren RepeatArgument) NestingDepth TrailingBackslash
 UnexpectedParen or( Code)) Flags FoldCase Inst( Alt( Match) Capture EmptyWidth Fail Match Nop Op
 Rune( 1 Any( NotNL))) IsWordChar Literal MatchNL NonGreedy OneLine Op( Alternate AnyChar( NotNL)
 Begin(Line Text) C(apture harClass oncat) EmptyMatch End(Line Text) Literal No(Match WordBoundary)
 Plus Quest Repeat Star WordBoundary) P(OSIX arse erl( X) rog) Regexp Simple UnicodeGroups WasDollar
 ;runtime AddCleanup BlockProfile( Record) Breakpoint C(PUProfile aller( s sFrames) leanup ompiler)
 Error Frame( s) Func( ForPC) G(C O(ARCH MAXPROCS OS ROOT) o(exit routineProfile sched)) KeepAlive
 LockOSThread Mem(Profile( Rate Record) Stats) MutexProfile Num(CPU CgoCall Goroutine) PanicNilError
 Pinner Read(MemStats Trace) Set(BlockProfileRate CPUProfileRate CgoTraceback DefaultGOMAXPROCS
 Finalizer MutexProfileFraction) St(ack( Record) artTrace opTrace) ThreadCreateProfile
 TypeAssertionError UnlockOSThread Version
 ;runtime/cgo Handle Incomplete NewHandle
 ;runtime/coverage ClearCounters Write(Counters( Dir) Meta( Dir))
 ;runtime/debug Build(Info Setting) CrashOptions FreeOSMemory GCStats Module ParseBuildInfo
 PrintStack Read(BuildInfo GCStats) Set(CrashOutput GCPercent Max(Stack Threads) MemoryLimit
 PanicOnFault Traceback) Stack WriteHeapDump
 ;runtime/metrics All Description Float64Histogram Kind(Bad Float64( Histogram) Uint64) Read Sample
 Value( Kind)
 ;runtime/pprof Do ForLabels Label( Set s) Lookup NewProfile Profile( s) S(etGoroutineLabels
 tartCPUProfile topCPUProfile) WithLabels WriteHeapProfile
 ;runtime/trace FlightRecorder( Config) IsEnabled Log( f) New(FlightRecorder Task) Region St(art(
 Region) op) Task WithRegion
 ;slices All AppendSeq Backward BinarySearch( Func) C(hunk lip lone o(llect mpa(ct( Func) re( Func))
 ncat ntains( Func))) Delete( Func) Equal( Func) Grow I(ndex( Func) nsert sSorted( Func)) Max( Func)
 Min( Func) Re(peat place verse) Sort( Func StableFunc ed( Func StableFunc)) Values
 ;sort Find Float64(Slice s sAreSorted) Int(Slice erface s sAreSorted) IsSorted Reverse S(earch(
 Float64s Ints Strings) lice( IsSorted Stable) ort table tring(Slice s sAreSorted))
 ;strconv Append(Bool Float Int Quote( Rune( To(ASCII Graphic)) To(ASCII Graphic)) Uint) Atoi
 CanBackquote Err(Range Syntax) Format(Bool Complex Float Int Uint) I(ntSize sGraphic sPrint toa)
 NumError Parse(Bool Complex Float Int Uint) Quote( Rune( To(ASCII Graphic)) To(ASCII Graphic)
 dPrefix) Unquote( Char)
 ;strings Builder C(lone o(mpare ntains( Any Func Rune) unt) ut( Prefix Suffix)) EqualFold Fields(
 Func( Seq) Seq) Has(Prefix Suffix) Index( Any Byte Func Rune) Join LastIndex( Any Byte Func) Lines
 Map NewRe(ader placer) Re(ader peat place( All r)) Split( After( N Seq) N Seq) T(itle o(Lower(
 Special) Title( Special) Upper( Special) ValidUTF8) rim( Func Left( Func) Prefix Right( Func) Space
 Suffix))
 ;structs HostLayout
 ;sync Cond Locker Map Mutex NewCond Once( Func Value( s)) Pool RWMutex WaitGroup
 ;sync/atomic Add(Int(32 64) Uint(32 64 ptr)) And(Int(32 64) Uint(32 64 ptr)) Bool
 CompareAndSwap(Int(32 64) Pointer Uint(32 64 ptr)) Int(32 64) Load(Int(32 64) Pointer Uint(32 64
 ptr)) Or(Int(32 64) Uint(32 64 ptr)) Pointer Store(Int(32 64) Pointer Uint(32 64 ptr)) Swap(Int(32
 64) Pointer Uint(32 64 ptr)) Uint(32 64 ptr) Value
 ;syscall Access C(h(dir mod own) lose onn) Dup E(ACCES AGAIN BADF BUSY EXIST I(NTR NVAL O SDIR)
 NO(ENT MEM SPC TDIR) PERM PIPE nviron rrno xec xit) Fchmod Fstat Get(env pid ppid uid wd) Kill
 M(kdir map unmap) O_(APPEND CREAT EXCL RD(ONLY WR) TRUNC WRONLY) Open Pipe R(awConn ead mdir)
 S(IG(ABRT ALRM CHLD CONT FPE HUP ILL INT KILL PIPE QUIT SEGV STOP T(ERM RAP STP) USR(1 2)) eek
 etenv ignal tat( _t) td(err in out) ys(ProcAttr call( 6))) Time(spec val) Umask Unlink Write
 ;testing AllocsPerRun B Benchmark( Result) Cover( Block Mode age) F In(it ternal(Benchmark Example
 FuzzTarget Test)) M Main( Start) PB RegisterCover Run(Benchmarks Examples Tests) Short T( B esting)
 Verbose
 ;testing/fstest MapF(S ile) TestFS
 ;testing/iotest DataErrReader Err(Reader Timeout) HalfReader New(ReadLogger WriteLogger)
 OneByteReader T(estReader imeoutReader runcateWriter)
 ;testing/quick Check( Equal( Error) Error) Config Generator SetupError Value
 ;testing/slogtest Run TestHandler
 ;testing/synctest Test Wait
 ;text/scanner Char Comment EOF Float Go(Tokens Whitespace) Ident Int Position RawString S(can(Chars
 Comments Floats Idents Ints RawStrings Strings ner) kipComments tring) TokenString
 ;text/tabwriter AlignRight Debug DiscardEmptyColumns Escape FilterHTML NewWriter StripEscape
 TabIndent Writer
 ;text/template ExecError FuncMap HTMLEscape( String r) IsTrue JSEscape( String r) Must New Parse(FS
 Files Glob) Template URLQueryEscaper
 ;text/template/parse ActionNode B(oolNode ranchNode reakNode) C(hainNode omm(andNode entNode)
 ontinueNode) DotNode FieldNode I(dentifierNode fNode sEmptyTree) ListNode Mode N(ew( Identifier)
 ilNode ode( Action Bool Break C(hain omm(and ent) ontinue) Dot Field Identifier If List Nil Number
 Pipe Range String T(emplate ext ype) Variable With) umberNode) P(arse( Comments) ipeNode os)
 RangeNode SkipFuncCheck StringNode T(emplateNode extNode ree) VariableNode WithNode
 ;time A(NSIC fter( Func) pril ugust) D(ate( Only Time) ecember uration) F(ebruary ixedZone riday)
 Hour J(anuary uly une) Kitchen L(ayout oadLocation( FromTZData) oca(l tion)) M(arch ay i(crosecond
 llisecond nute) on(day th)) N(anosecond ewTi(cker mer) ovember ow) October Parse( Duration Error
 InLocation) RFC(1123( Z) 3339( Nano) 822( Z) 850) RubyDate S(aturday econd eptember ince leep tamp(
 Mi(cro lli) Nano) unday) T(hursday ick( er) ime( Only r) uesday) U(TC nix( Date Mi(cro lli)) ntil)
 We(dnesday ekday)
 ;unicode C(ase(Orbit Range( s)) ategor(ies yAliases) ommon yrillic) Digit Fold(Category Script)
 Gr(aphicRanges eek) Han Hiragana In Is( Control Digit Graphic Letter Lower Mark Number OneOf Print
 Punct Space Symbol Title Upper) Katakana L( atin etter l m o ower( Case) t u) M( ark ax(ASCII Case
 Latin1 Rune) c e n) N( d l o umber) Other P( c d e f i o rintRanges roperties s unct) Range(16 32
 Table) ReplacementChar S( c cripts impleFold k m o pace pecialCase ymbol) T(itle( Case) o( Lower
 Title Upper) urkishCase) Upper( Case Lower) Version White_Space Z( l p s)
 ;unicode/utf16 AppendRune Decode( Rune) Encode( Rune) IsSurrogate RuneLen
 ;unicode/utf8 AppendRune Decode(LastRune( InString) Rune( InString)) EncodeRune FullRune( InString)
 MaxRune Rune(Count( InString) Error Len Self Start) UTFMax Valid( Rune String)
 ;unique Handle Make
 ;unsafe Add Alignof Offsetof Pointer S(izeof lice( Data) tring( Data))
 ;weak Make Pointer"

/-- The paths of packages, and what is written of their names. -/
def table : List (String × List Char) :=
  ((text.replace "\n" "").splitOn " ;").tail.map fun entry =>
    (String.ofList (entry.toList.takeWhile (· ≠ ' ')), entry.toList.dropWhile (· ≠ ' '))

/-- The names that are written, where some have been begun with in turn. -/
def spread (stems : List String) (name : Option String) : List Char → List String
  | [] => name.toList
  | '(' :: cs => spread (name.getD "" :: stems) name cs
  | ')' :: cs => name.toList ++ spread stems.tail none cs
  | ' ' :: cs => name.toList ++ spread stems (some (stems.headD "")) cs
  | c :: cs => spread stems (name.map (·.push c)) cs

/-- What a package is called where its path is imported without a name: the last part of the path,
or the part before a version. -/
def nameOf (path : String) : String :=
  let isVersion (s : List Char) : Bool := match s with
    | 'v' :: ds => !ds.isEmpty && ds.all Char.isDigit
    | _ => false
  match (path.splitOn "/").reverse with
  | last :: before :: _ => if isVersion last.toList then before else last
  | [last] => last
  | [] => ""

def find? (name : String) (members : List String) : Option String :=
  (table.find? fun (path, exports) =>
    nameOf path = name && members.all (spread [] none exports).contains).map (·.1)

end TiledAutomata.Emit.Host.Library
